import Mathlib.Data.List.Perm.Basic
import OrderStream.Theory.Transition
import OrderStream.Watcher.Process

/-! `_reconcile_or_reset`, call after call, on a collection that nobody writes to. -/

namespace OrderStream

open Transition

/-- Where a call stands, with its `old_cache` and the orders still to append. -/
inductive ReconcilePhase where
  | idle
  | reading (oldCache : Orders)
  | appending (oldCache : Orders) (added : List String)

structure Reconciler where
  cache : Orders
  resumeToken : Option Doc := none
  phase : ReconcilePhase := .idle
  stored : List Draft := []

/-- `fail` is an exception of `warm_cache`, or of an `append` before or after its event
was stored. -/
inductive ReconcileAction where
  | call
  | read (orderId : String)
  | scanned (added : List String)
  | append (stamp : Stamp)
  | finish
  | fail (stored : Option Stamp)

def Completes (actions : List ReconcileAction) : Prop :=
  ∃ body, actions = .call :: (body ++ [.finish]) ∧ ∀ action ∈ body,
    match action with
    | .read _ | .scanned _ | .append _ => True
    | .call | .finish | .fail _ => False

/-- `now_ids - old_ids` -/
def addedIds (now old : Orders) : List String :=
  now.keys.filter fun orderId => !old.contains orderId

theorem mem_keys_iff_contains {orders : Orders} {orderId : String} :
    orderId ∈ orders.keys ↔ orders.contains orderId = true := by
  rw [PyDict.mem_keys_iff, ← Option.isSome_iff_exists, PyDict.contains]

theorem mem_addedIds {now old : Orders} {orderId : String} :
    orderId ∈ addedIds now old ↔
      now.contains orderId = true ∧ old.contains orderId = false := by
  rw [addedIds, List.mem_filter, mem_keys_iff_contains, Bool.not_eq_true']

theorem nodup_addedIds (now old : Orders) : (addedIds now old).Nodup := now.nodup.filter _

theorem addedIds_perm_iff {now old now' old' : Orders} :
    (addedIds now old).Perm (addedIds now' old') ↔ ∀ orderId,
      (now.contains orderId = true ∧ old.contains orderId = false ↔
        now'.contains orderId = true ∧ old'.contains orderId = false) := by
  rw [List.perm_ext_iff_of_nodup (nodup_addedIds _ _) (nodup_addedIds _ _)]
  simp only [mem_addedIds]

theorem addedIds_eq_nil {now old : Orders}
    (known : ∀ orderId, now.contains orderId = true → old.contains orderId = true) :
    addedIds now old = [] := by
  rw [List.eq_nil_iff_forall_not_mem]
  intro orderId member
  obtain ⟨found, missing⟩ := mem_addedIds.mp member
  rw [known orderId found] at missing
  cases missing

namespace Reconciler

def record (state : Reconciler) (orderId : String) (stamp : Stamp) : Option Reconciler :=
  (Watcher.reconciliationArgs state.cache orderId).map fun args =>
    { state with stored := state.stored ++ [stamp.draft args] }

def leave (state : Reconciler) : Reconciler :=
  { state with resumeToken := none, phase := .idle }

def step (orders : Orders) (state : Reconciler) : ReconcileAction → Option Reconciler
  | .call =>
      match state.phase with
      | .idle => some { state with cache := ∅, phase := .reading state.cache }
      | .reading _ | .appending _ _ => none
  | .read orderId =>
      match state.phase, orders.get? orderId with
      | .reading _, some doc =>
          some { state with cache := state.cache.set orderId (Watcher.strip doc) }
      | _, _ => none
  | .scanned added =>
      match state.phase with
      | .reading oldCache =>
          -- a set is iterated over in any order
          if (∀ orderId ∈ orders.keys, state.cache.contains orderId = true) ∧
              added.Perm (addedIds state.cache oldCache) then
            some { state with phase := .appending oldCache added }
          else none
      | .idle | .appending _ _ => none
  | .append stamp =>
      match state.phase with
      | .appending oldCache (orderId :: added) =>
          (state.record orderId stamp).map fun state =>
            { state with phase := .appending oldCache added }
      | .idle | .reading _ | .appending _ [] => none
  | .finish =>
      match state.phase with
      | .appending _ [] => some state.leave
      | .idle | .reading _ | .appending _ (_ :: _) => none
  | .fail stored =>
      match state.phase, stored with
      | .reading _, none | .appending _ (_ :: _), none => some state.leave
      | .appending _ (orderId :: _), some stamp =>
          (state.record orderId stamp).map fun state => state.leave
      | _, _ => none

inductive Step (orders : Orders) (state : Reconciler) :
    ReconcileAction → Reconciler → Prop where
  | called : state.phase = .idle →
      Step orders state .call { state with cache := ∅, phase := .reading state.cache }
  | read {oldCache : Orders} {orderId : String} {doc : Doc} :
      state.phase = .reading oldCache → orders.get? orderId = some doc →
        Step orders state (.read orderId)
          { state with cache := state.cache.set orderId (Watcher.strip doc) }
  | scanned {oldCache : Orders} {added : List String} : state.phase = .reading oldCache →
      (∀ orderId ∈ orders.keys, state.cache.contains orderId = true) →
        added.Perm (addedIds state.cache oldCache) →
          Step orders state (.scanned added) { state with phase := .appending oldCache added }
  | appended {oldCache : Orders} {orderId : String} {added : List String} {stamp : Stamp}
      {args : AppendArgs} : state.phase = .appending oldCache (orderId :: added) →
        Watcher.reconciliationArgs state.cache orderId = some args →
          Step orders state (.append stamp)
            { state with
              phase := .appending oldCache added
              stored := state.stored ++ [stamp.draft args] }
  | finished {oldCache : Orders} : state.phase = .appending oldCache [] →
      Step orders state .finish state.leave
  | unread {oldCache : Orders} : state.phase = .reading oldCache →
      Step orders state (.fail none) state.leave
  | lost {oldCache : Orders} {orderId : String} {added : List String} :
      state.phase = .appending oldCache (orderId :: added) →
        Step orders state (.fail none) state.leave
  | unconfirmed {oldCache : Orders} {orderId : String} {added : List String} {stamp : Stamp}
      {args : AppendArgs} : state.phase = .appending oldCache (orderId :: added) →
        Watcher.reconciliationArgs state.cache orderId = some args →
          Step orders state (.fail (some stamp))
            { state with stored := state.stored ++ [stamp.draft args] }.leave

theorem step_cases {orders : Orders} {state next : Reconciler} {action : ReconcileAction}
    (stepped : step orders state action = some next) : Step orders state action next := by
  cases action with
  | call =>
      simp only [step] at stepped
      split at stepped
      · cases stepped
        exact .called ‹_›
      · cases stepped
      · cases stepped
  | read orderId =>
      simp only [step] at stepped
      split at stepped
      · cases stepped
        exact .read ‹_› ‹_›
      · cases stepped
  | scanned added =>
      simp only [step] at stepped
      split at stepped
      · split at stepped
        · rename_i reading complete
          cases stepped
          exact .scanned reading complete.1 complete.2
        · cases stepped
      · cases stepped
      · cases stepped
  | append stamp =>
      simp only [step, record, Option.map_map] at stepped
      split at stepped
      · obtain ⟨args, found, rfl⟩ := Option.map_eq_some_iff.mp stepped
        exact .appended ‹_› found
      · cases stepped
      · cases stepped
      · cases stepped
  | finish =>
      simp only [step] at stepped
      split at stepped
      · cases stepped
        exact .finished ‹_›
      · cases stepped
      · cases stepped
      · cases stepped
  | fail stored =>
      simp only [step, record, Option.map_map] at stepped
      split at stepped
      · cases stepped
        exact .unread ‹_›
      · cases stepped
        exact .lost ‹_›
      · obtain ⟨args, found, rfl⟩ := Option.map_eq_some_iff.mp stepped
        exact .unconfirmed ‹_› found
      · cases stepped

structure Sound (orders : Orders) (state : Reconciler) : Prop where
  copied : ∀ oldCache, state.phase = .reading oldCache → ∀ orderId doc,
    state.cache.get? orderId = some doc →
      (orders.mapValues Watcher.strip).get? orderId = some doc
  complete : ∀ oldCache added, state.phase = .appending oldCache added → ∀ orderId,
    state.cache.get? orderId = (orders.mapValues Watcher.strip).get? orderId
  synthetic : ∀ draft ∈ state.stored,
    Watcher.reconciliationArgs (orders.mapValues Watcher.strip) draft.args.orderId =
      some draft.args

def storedIds (state : Reconciler) : List String :=
  state.stored.map fun draft => draft.args.orderId

/-- The orders that the running call, or the next one, appends if it does not fail. -/
def owed (orders : Orders) (state : Reconciler) : List String :=
  match state.phase with
  | .idle => addedIds orders state.cache
  | .reading oldCache => addedIds orders oldCache
  | .appending _ added => added

def account (orders : Orders) (state : Reconciler) : List String :=
  state.storedIds ++ state.owed orders

/-- A call may fail in the cursor when it has read again just the orders it knew before,
and in its last `append` when the event was stored. -/
def Harmless (orders : Orders) (state : Reconciler) : ReconcileAction → Prop
  | .fail none =>
      match state.phase with
      | .reading oldCache =>
          ∀ orderId ∈ orders.keys,
            state.cache.contains orderId = oldCache.contains orderId
      | .idle | .appending _ _ => False
  | .fail (some _) =>
      match state.phase with
      | .appending _ added => added.length = 1
      | .idle | .reading _ => False
  | .call | .read _ | .scanned _ | .append _ | .finish => True

instance (orders : Orders) : ∀ (state : Reconciler) (action : ReconcileAction),
    Decidable (state.Harmless orders action)
  | ⟨cache, _, .reading oldCache, _⟩, .fail none =>
      inferInstanceAs (Decidable
        (∀ orderId ∈ orders.keys, cache.contains orderId = oldCache.contains orderId))
  | ⟨_, _, .appending _ added, _⟩, .fail (some _) =>
      inferInstanceAs (Decidable (added.length = 1))
  | ⟨_, _, .idle, _⟩, .fail none | ⟨_, _, .appending _ _, _⟩, .fail none
  | ⟨_, _, .idle, _⟩, .fail (some _) | ⟨_, _, .reading _, _⟩, .fail (some _) =>
      inferInstanceAs (Decidable False)
  | _, .call | _, .read _ | _, .scanned _ | _, .append _ | _, .finish =>
      inferInstanceAs (Decidable True)

section

variable {orders : Orders} {state next : Reconciler} {action : ReconcileAction}

theorem of_reconciliation {cache : Orders} {orderId : String} {args : AppendArgs}
    (found : Watcher.reconciliationArgs cache orderId = some args) :
    args.orderId = orderId ∧ args.op = .insert ∧
      ∃ doc, cache.get? orderId = some doc ∧ args.after = some doc := by
  obtain ⟨doc, stored, rfl⟩ := Option.map_eq_some_iff.mp found
  exact ⟨rfl, rfl, doc, stored, rfl⟩

theorem reconciliationArgs_congr {cache other : Orders} {orderId : String}
    (same : cache.get? orderId = other.get? orderId) :
    Watcher.reconciliationArgs cache orderId = Watcher.reconciliationArgs other orderId := by
  unfold Watcher.reconciliationArgs
  rw [same]

theorem owed_of_idle (idle : state.phase = .idle) :
    state.owed orders = addedIds orders state.cache := by
  rw [owed, idle]

theorem owed_of_reading {oldCache : Orders} (reading : state.phase = .reading oldCache) :
    state.owed orders = addedIds orders oldCache := by
  rw [owed, reading]

theorem owed_of_appending {oldCache : Orders} {added : List String}
    (appending : state.phase = .appending oldCache added) : state.owed orders = added := by
  rw [owed, appending]

theorem contains_strip (orders : Orders) (orderId : String) :
    (orders.mapValues Watcher.strip).contains orderId = orders.contains orderId := by
  rw [PyDict.contains, PyDict.get?_mapValues, Option.isSome_map, PyDict.contains]

theorem Sound.contains_of_copied (sound : Sound orders state) {oldCache : Orders}
    (reading : state.phase = .reading oldCache) {orderId : String}
    (read : state.cache.contains orderId = true) : orders.contains orderId = true := by
  obtain ⟨doc, found⟩ := Option.isSome_iff_exists.mp read
  rw [← contains_strip, PyDict.contains, sound.copied oldCache reading orderId doc found]
  rfl

theorem Sound.contains_of_complete (sound : Sound orders state) {oldCache : Orders}
    {added : List String} (appending : state.phase = .appending oldCache added)
    (orderId : String) : state.cache.contains orderId = orders.contains orderId := by
  rw [← contains_strip orders]
  exact congrArg Option.isSome (sound.complete oldCache added appending orderId)

theorem Sound.owed_leave (sound : Sound orders state) {oldCache : Orders}
    {added : List String} (appending : state.phase = .appending oldCache added) :
    state.leave.owed orders = [] := by
  apply addedIds_eq_nil
  intro orderId found
  show state.cache.contains orderId = true
  rw [sound.contains_of_complete appending]
  exact found

theorem Sound.synthetic_snoc (sound : Sound orders state) {oldCache : Orders}
    {orderId : String} {added : List String} {stamp : Stamp} {args : AppendArgs}
    (appending : state.phase = .appending oldCache (orderId :: added))
    (found : Watcher.reconciliationArgs state.cache orderId = some args) :
    ∀ draft ∈ state.stored ++ [stamp.draft args],
      Watcher.reconciliationArgs (orders.mapValues Watcher.strip) draft.args.orderId =
        some draft.args := by
  intro draft member
  rcases List.mem_append.mp member with earlier | last
  · exact sound.synthetic draft earlier
  · rw [List.mem_singleton.mp last]
    show Watcher.reconciliationArgs _ args.orderId = some args
    rw [(of_reconciliation found).1,
      ← reconciliationArgs_congr (sound.complete _ _ appending orderId)]
    exact found

theorem sound_start (orders first : Orders) : Sound orders { cache := first } := by
  refine ⟨?_, ?_, ?_⟩
  · intro _ reading
    cases reading
  · intro _ _ appending
    cases appending
  · intro draft member
    cases member

theorem sound_step (sound : Sound orders state)
    (stepped : step orders state action = some next) : Sound orders next := by
  cases step_cases stepped with
  | called _ =>
      refine ⟨?_, ?_, sound.synthetic⟩
      · intro _ _ orderId doc found
        cases found
      · intro _ _ appending
        cases appending
  | @read oldCache orderId doc reading found =>
      refine ⟨?_, ?_, sound.synthetic⟩
      · intro _ _ other copy stored
        rw [PyDict.get?_set] at stored
        split at stored
        · rename_i same
          cases stored
          rw [same, PyDict.get?_mapValues, found]
          rfl
        · exact sound.copied oldCache reading other copy stored
      · intro _ _ appending
        cases reading.symm.trans appending
  | @scanned oldCache added reading all _ =>
      refine ⟨?_, ?_, sound.synthetic⟩
      · intro _ again
        cases again
      · intro _ _ _ orderId
        cases stored : state.cache.get? orderId with
        | some doc => exact (sound.copied oldCache reading orderId doc stored).symm
        | none =>
            have missing : orders.get? orderId = none := by
              rw [PyDict.get?_eq_none_iff]
              intro member
              have read := all orderId member
              rw [PyDict.contains, stored] at read
              cases read
            rw [PyDict.get?_mapValues, missing]
            rfl
  | @appended oldCache orderId added _ _ appending found =>
      refine ⟨?_, ?_, sound.synthetic_snoc appending found⟩
      · intro _ reading
        cases reading
      · intro _ _ _ other
        exact sound.complete _ _ appending other
  | finished _ | unread _ | lost _ =>
      refine ⟨?_, ?_, sound.synthetic⟩
      · intro _ reading
        cases reading
      · intro _ _ appending
        cases appending
  | unconfirmed appending found =>
      refine ⟨?_, ?_, sound.synthetic_snoc appending found⟩
      · intro _ reading
        cases reading
      · intro _ _ again
        cases again

/-- Only a failure that is not harmless changes what will be stored in the end. -/
theorem account_step (sound : Sound orders state)
    (stepped : step orders state action = some next) :
    (next.account orders).Perm (state.account orders) ↔ Harmless orders state action := by
  unfold account
  cases step_cases stepped with
  | called idle =>
      refine iff_of_true ?_ trivial
      rw [owed_of_idle idle]
      exact List.Perm.refl _
  | @read oldCache orderId doc reading _ =>
      refine iff_of_true ?_ trivial
      have kept : owed orders
          { state with cache := state.cache.set orderId (Watcher.strip doc) } =
            addedIds orders oldCache :=
        owed_of_reading reading
      rw [owed_of_reading reading, kept]
      exact List.Perm.refl _
  | @scanned oldCache added reading all perm =>
      refine iff_of_true ?_ trivial
      rw [owed_of_reading reading]
      refine List.Perm.append_left _ (perm.trans (addedIds_perm_iff.mpr ?_))
      intro orderId
      refine and_congr_left fun _ => ⟨sound.contains_of_copied reading, ?_⟩
      intro found
      exact all orderId (mem_keys_iff_contains.mpr found)
  | @appended oldCache orderId added stamp args appending found =>
      refine iff_of_true ?_ trivial
      rw [owed_of_appending appending, storedIds, List.map_append, List.append_assoc]
      show (_ ++ (args.orderId :: added)).Perm (_ ++ (orderId :: added))
      rw [(of_reconciliation found).1]
      exact List.Perm.refl _
  | finished appending =>
      refine iff_of_true ?_ trivial
      rw [owed_of_appending appending, sound.owed_leave appending]
      exact List.Perm.refl _
  | @unread oldCache reading =>
      rw [owed_of_reading reading, Harmless, reading]
      refine (List.perm_append_left_iff _).trans (addedIds_perm_iff.trans ?_)
      constructor
      · intro same orderId member
        have agree := same orderId
        rw [mem_keys_iff_contains.mp member] at agree
        simp only [true_and] at agree
        rwa [Bool.eq_false_iff, Bool.eq_false_iff, not_iff_not, ← Bool.eq_iff_iff] at agree
      · intro same orderId
        refine and_congr_right fun found => ?_
        rw [← same orderId (mem_keys_iff_contains.mpr found)]
        exact Iff.rfl
  | @lost oldCache orderId added appending =>
      rw [owed_of_appending appending, sound.owed_leave appending, Harmless, appending]
      refine iff_of_false ?_ id
      intro perm
      have lengths := perm.length_eq
      rw [List.length_append, List.length_append, List.length_cons, List.length_nil] at lengths
      change state.storedIds.length + 0 = _ at lengths
      omega
  | @unconfirmed oldCache orderId added stamp args appending found =>
      have gone : owed orders
          (leave { state with stored := state.stored ++ [stamp.draft args] }) = [] :=
        sound.owed_leave appending
      rw [owed_of_appending appending, gone, Harmless, appending, List.append_nil]
      show ((state.stored ++ [stamp.draft args]).map fun draft => draft.args.orderId).Perm _ ↔
        added.length + 1 = 1
      rw [List.map_append]
      refine (List.perm_append_left_iff _).trans ?_
      show [args.orderId].Perm (orderId :: added) ↔ added.length + 1 = 1
      rw [(of_reconciliation found).1, List.perm_cons, List.nil_perm, Nat.add_eq_right,
        List.length_eq_zero_iff]

theorem harmless_of_ne (tame : ∀ stored, action ≠ .fail stored) :
    Harmless orders state action := by
  cases action with
  | fail stored => exact absurd rfl (tame stored)
  | call | read _ | scanned _ | append _ | finish => trivial

theorem account_exec {actions : List ReconcileAction} (sound : Sound orders state)
    (tame : ∀ action ∈ actions, ∀ stored, action ≠ .fail stored)
    (reached : exec (step orders) state actions = some next) :
    Sound orders next ∧ (next.account orders).Perm (state.account orders) := by
  induction actions generalizing state with
  | nil =>
      cases reached
      exact ⟨sound, List.Perm.refl _⟩
  | cons action rest ih =>
      obtain ⟨middle, stepped, reached⟩ := Option.bind_eq_some_iff.mp reached
      have same := (account_step sound stepped).mpr
        (harmless_of_ne (tame action List.mem_cons_self))
      obtain ⟨later, rest⟩ := ih (sound_step sound stepped)
        (fun other member => tame other (List.mem_cons_of_mem _ member)) reached
      exact ⟨later, rest.trans same⟩

theorem tame_of_completes {actions : List ReconcileAction} (completes : Completes actions) :
    ∀ action ∈ actions, ∀ stored, action ≠ .fail stored := by
  obtain ⟨body, rfl, inner⟩ := completes
  rintro action member stored rfl
  rcases List.mem_cons.mp member with first | rest
  · cases first
  · rcases List.mem_append.mp rest with within | last
    · exact inner _ within
    · cases List.mem_singleton.mp last

theorem idle_of_completes {actions : List ReconcileAction} (completes : Completes actions)
    (reached : exec (step orders) state actions = some next) : state.phase = .idle := by
  obtain ⟨body, rfl, -⟩ := completes
  obtain ⟨middle, called, -⟩ := Option.bind_eq_some_iff.mp reached
  cases step_cases called with
  | called idle => exact idle

theorem storedIds_of_completes {actions : List ReconcileAction} (sound : Sound orders state)
    (completes : Completes actions)
    (reached : exec (step orders) state actions = some next) :
    Sound orders next ∧ next.storedIds.Perm (state.account orders) := by
  obtain ⟨later, same⟩ := account_exec sound (tame_of_completes completes) reached
  refine ⟨later, ?_⟩
  obtain ⟨body, rfl, -⟩ := completes
  rw [← List.cons_append] at reached
  obtain ⟨middle, before, finished⟩ := exec_snoc.mp reached
  have known : Sound orders middle :=
    exec_invariant (motive := Sound orders) sound
      (fun _ _ _ holds stepped => sound_step holds stepped) before
  cases step_cases finished with
  | finished appending =>
      rw [account, known.owed_leave appending, List.append_nil] at same
      exact same

theorem exec_reads (orders : Orders) {oldCache : Orders} (state : Reconciler)
    (reading : state.phase = .reading oldCache) (orderIds : List String)
    (known : ∀ orderId ∈ orderIds, orderId ∈ orders.keys) :
    ∃ cache, exec (step orders) state (orderIds.map .read) = some { state with cache } ∧
      (∀ orderId, state.cache.contains orderId = true → cache.contains orderId = true) ∧
      ∀ orderId ∈ orderIds, cache.contains orderId = true := by
  induction orderIds generalizing state with
  | nil => exact ⟨state.cache, rfl, fun _ found => found, fun _ member => by cases member⟩
  | cons orderId rest ih =>
      obtain ⟨doc, found⟩ := PyDict.mem_keys_iff.mp (known orderId List.mem_cons_self)
      have read : step orders state (.read orderId) =
          some { state with cache := state.cache.set orderId (Watcher.strip doc) } := by
        simp only [step, reading, found]
      have here : (state.cache.set orderId (Watcher.strip doc)).contains orderId = true := by
        rw [PyDict.contains, PyDict.get?_set_self]
        rfl
      obtain ⟨cache, reached, kept, all⟩ := ih
        { state with cache := state.cache.set orderId (Watcher.strip doc) } reading
        fun other member => known other (List.mem_cons_of_mem _ member)
      refine ⟨cache, ?_, ?_, ?_⟩
      · rw [List.map_cons, exec, read, Option.bind_some]
        exact reached
      · intro other found
        apply kept
        rw [PyDict.contains, PyDict.get?_set]
        split
        · rfl
        · exact found
      · intro other member
        rcases List.mem_cons.mp member with rfl | later
        · exact kept other here
        · exact all other later

theorem exec_appends (orders : Orders) {oldCache : Orders} {added : List String}
    (state : Reconciler) (appending : state.phase = .appending oldCache added) (stamp : Stamp)
    (there : ∀ orderId ∈ added, state.cache.contains orderId = true) :
    ∃ next, exec (step orders) state (added.map fun _ => .append stamp) = some next ∧
      next.phase = .appending oldCache [] := by
  induction added generalizing state with
  | nil => exact ⟨state, rfl, appending⟩
  | cons orderId rest ih =>
      obtain ⟨doc, found⟩ := Option.isSome_iff_exists.mp (there orderId List.mem_cons_self)
      obtain ⟨args, known⟩ : ∃ args,
          Watcher.reconciliationArgs state.cache orderId = some args := by
        rw [Watcher.reconciliationArgs, found]
        exact ⟨_, rfl⟩
      have appended : step orders state (.append stamp) =
          some { state with
            phase := .appending oldCache rest
            stored := state.stored ++ [stamp.draft args] } := by
        simp only [step, appending, record, known, Option.map_some]
      rw [List.map_cons, exec, appended]
      exact ih _ rfl fun other member => there other (List.mem_cons_of_mem _ member)

/-- A call on an idle watcher can always complete. -/
theorem completes_of_idle (orders : Orders) (idle : state.phase = .idle) (stamp : Stamp) :
    ∃ actions done, Completes actions ∧ exec (step orders) state actions = some done := by
  obtain ⟨cache, read, -, all⟩ := exec_reads orders
    { state with cache := ∅, phase := .reading state.cache } rfl orders.keys
    fun _ member => member
  have scanned : step orders { state with cache, phase := .reading state.cache }
      (.scanned (addedIds cache state.cache)) =
        some { state with
          cache
          phase := .appending state.cache (addedIds cache state.cache) } := by
    simp only [step]
    rw [if_pos ⟨all, List.Perm.refl _⟩]
  obtain ⟨last, appended, ended⟩ := exec_appends orders
    { state with
      cache
      phase := .appending state.cache (addedIds cache state.cache) } rfl stamp
    fun orderId member => (mem_addedIds.mp member).1
  have finished : step orders last .finish = some last.leave := by
    simp only [step, ended]
  refine ⟨.call :: ((orders.keys.map .read ++ .scanned (addedIds cache state.cache) ::
    (addedIds cache state.cache).map fun _ => .append stamp) ++ [.finish]), last.leave,
    ⟨_, rfl, ?_⟩, ?_⟩
  · intro action member
    rcases List.mem_append.mp member with reads | rest
    · obtain ⟨orderId, -, rfl⟩ := List.mem_map.mp reads
      trivial
    · rcases List.mem_cons.mp rest with rfl | appends
      · trivial
      · obtain ⟨orderId, -, rfl⟩ := List.mem_map.mp appends
        trivial
  · have called : step orders state .call =
        some { state with cache := ∅, phase := .reading state.cache } := by
      simp only [step, idle]
    rw [exec, called, Option.bind_some]
    refine exec_snoc.mpr ⟨last, exec_append_some.mpr ⟨_, read, ?_⟩, finished⟩
    rw [exec, scanned, Option.bind_some]
    exact appended

end

/-- One synthetic event for each order that the first cache lacked. -/
structure Exact (orders first : Orders) (done : Reconciler) : Prop where
  once : done.storedIds.Perm (addedIds orders first)
  synthetic : ∀ draft ∈ done.stored,
    Watcher.reconciliationArgs (orders.mapValues Watcher.strip) draft.args.orderId =
      some draft.args

section

variable {orders first : Orders} {state next : Reconciler}

theorem exact_of_completes_iff {actions : List ReconcileAction} (sound : Sound orders state)
    (completes : Completes actions)
    (reached : exec (step orders) state actions = some next) :
    Exact orders first next ↔ (state.account orders).Perm (addedIds orders first) := by
  obtain ⟨later, same⟩ := storedIds_of_completes sound completes reached
  constructor
  · intro exact'
    exact same.symm.trans exact'.once
  · intro balanced
    exact ⟨same.trans balanced, later.synthetic⟩

/-- Whichever call completes from an idle state, it stores what is missing iff just that
is owed. -/
theorem forall_exact_iff (sound : Sound orders state) (idle : state.phase = .idle) :
    (∀ last done, Completes last → exec (step orders) state last = some done →
        Exact orders first done) ↔
      (state.account orders).Perm (addedIds orders first) := by
  constructor
  · intro all
    obtain ⟨last, done, completes, reached⟩ :=
      completes_of_idle orders idle ⟨"", sampleTime, 0, ""⟩
    exact (exact_of_completes_iff sound completes reached).mp (all last done completes reached)
  · intro balanced last done completes reached
    exact (exact_of_completes_iff sound completes reached).mpr balanced

theorem forall_exact_step {action : ReconcileAction} (sound : Sound orders state)
    (balanced : (state.account orders).Perm (addedIds orders first))
    (stepped : step orders state action = some next) :
    (∀ last done, Completes last → exec (step orders) next last = some done →
        Exact orders first done) ↔ Harmless orders state action := by
  by_cases idle : next.phase = .idle
  · rw [forall_exact_iff (sound_step sound stepped) idle, ← account_step sound stepped]
    constructor
    · intro later
      exact later.trans balanced.symm
    · intro same
      exact same.trans balanced
  · refine iff_of_true ?_ (harmless_of_ne ?_)
    · intro last done completes reached
      exact absurd (idle_of_completes completes reached) idle
    · rintro stored rfl
      cases step_cases stepped with
      | unread _ | lost _ | unconfirmed _ _ => exact idle rfl

/-- After every stage of a run, a call that completes makes the synthetic events one for
each order that the first cache lacked, iff every failure in the run is harmless. -/
theorem retried_exactly_once_iff (orders first : Orders) {actions : List ReconcileAction}
    {state : Reconciler}
    (reached : exec (step orders) { cache := first } actions = some state) :
    (∀ before after middle, actions = before ++ after →
      exec (step orders) { cache := first } before = some middle →
        ∀ last done, Completes last → exec (step orders) middle last = some done →
          Exact orders first done) ↔
      Along (step orders) (fun _ => Harmless orders) { cache := first } actions := by
  have sound := sound_start orders first
  have balanced : (account orders { cache := first }).Perm (addedIds orders first) :=
    List.Perm.refl _
  refine always_iff_along
    (fun state => Sound orders state ∧ (state.account orders).Perm (addedIds orders first))
    ⟨sound, balanced⟩ ((forall_exact_iff sound rfl).mpr balanced) ?_ reached
  rintro state action finish ⟨sound, balanced⟩ stepped
  refine ⟨forall_exact_step sound balanced stepped, ?_⟩
  intro harmless
  exact ⟨sound_step sound stepped, ((account_step sound stepped).mpr harmless).trans balanced⟩

end

/-! A cursor that fails before it yields an order, and one that fails just in time. -/

def orderOne : Orders := .ofList [("1", sampleOrder "pending" 10)]

def orderTwo : Orders :=
  .ofList [("1", sampleOrder "pending" 10), ("2", sampleOrder "pending" 20)]

def laterStamp : Stamp := ⟨"event", sampleTime, 1, auditGenesisHash⟩

def retried (orderIds : List String) (orderId : String) : List ReconcileAction :=
  .call :: (orderIds.map .read ++ [.scanned [orderId], .append laterStamp]) ++ [.finish]

theorem completes_retried (orderIds : List String) (orderId : String) :
    Completes (retried orderIds orderId) := by
  refine ⟨_, rfl, ?_⟩
  intro action member
  rcases List.mem_append.mp member with reads | rest
  · obtain ⟨read, -, rfl⟩ := List.mem_map.mp reads
    trivial
  · simp only [List.mem_cons, List.not_mem_nil, or_false] at rest
    rcases rest with rfl | rfl
    · trivial
    · trivial

theorem known_order_is_announced_again :
    ∃ middle done,
      exec (step orderOne) { cache := orderOne } [.call, .fail none] = some middle ∧
        Completes (retried ["1"] "1") ∧
        exec (step orderOne) middle (retried ["1"] "1") = some done ∧
        ¬Exact orderOne orderOne done := by
  have facts : (exec (step orderOne) { cache := orderOne }
      ([.call, .fail none] ++ retried ["1"] "1")).map storedIds = some ["1"] := by
    decide +kernel
  obtain ⟨done, reached, stored⟩ := Option.map_eq_some_iff.mp facts
  obtain ⟨middle, failed, last⟩ := exec_append_some.mp reached
  refine ⟨middle, done, failed, completes_retried _ _, last, ?_⟩
  intro exact'
  have none : addedIds orderOne orderOne = [] := by
    decide +kernel
  have lengths := exact'.once.length_eq
  rw [stored, none] at lengths
  cases lengths

theorem retried_exactly_once_of_known_read :
    ∃ middle done,
      exec (step orderTwo) { cache := orderOne } [.call, .read "1", .fail none] = some middle ∧
        exec (step orderTwo) middle (retried ["1", "2"] "2") = some done ∧
        Exact orderTwo orderOne done ∧ done.storedIds = ["2"] := by
  have facts : (exec (step orderTwo) { cache := orderOne }
      ([.call, .read "1", .fail none] ++ retried ["1", "2"] "2")).map storedIds =
        some ["2"] := by
    decide +kernel
  have harmless : Along (step orderTwo) (fun _ => Harmless orderTwo) { cache := orderOne }
      [.call, .read "1", .fail none] := by
    decide +kernel
  obtain ⟨done, reached, stored⟩ := Option.map_eq_some_iff.mp facts
  obtain ⟨middle, failed, last⟩ := exec_append_some.mp reached
  exact ⟨middle, done, failed, last,
    (retried_exactly_once_iff orderTwo orderOne failed).mpr harmless _ [] middle
      (List.append_nil _).symm failed _ done (completes_retried _ _) last, stored⟩

end Reconciler

end OrderStream
