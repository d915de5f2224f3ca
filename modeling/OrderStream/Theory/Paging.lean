import Mathlib.Data.List.Sort

/-! What of a log is later than a cursor, in the order of its keys, and how a page of it
moves the cursor. -/

namespace Paging

variable {α : Type u} {κ : Type v} [LinearOrder κ] {key : α → κ} {log : List α}
  {cursor : κ} {item : α}

def Increasing (key : α → κ) (log : List α) : Prop :=
  log.Pairwise fun first second => key first < key second

def later (key : α → κ) (cursor : κ) (log : List α) : List α :=
  (log.filter fun item => decide (cursor < key item)).insertionSort
    fun first second => key first ≤ key second

theorem mem_later : item ∈ later key cursor log ↔ item ∈ log ∧ cursor < key item := by
  rw [later, List.mem_insertionSort, List.mem_filter, decide_eq_true_iff]

theorem length_later_le : (later key cursor log).length ≤ log.length := by
  rw [later, List.length_insertionSort]
  exact List.length_filter_le _ _

theorem increasing_later (distinct : (log.map key).Nodup) :
    Increasing key (later key cursor log) := by
  have sorted : (later key cursor log).Pairwise fun first second => key first ≤ key second :=
    List.pairwise_insertionSort _ _
  have kept : ((later key cursor log).map key).Nodup := by
    rw [later, ((List.perm_insertionSort _ _).map key).nodup_iff]
    exact distinct.sublist (List.filter_sublist.map key)
  exact (sorted.and (List.pairwise_map.mp kept)).imp fun both => lt_of_le_of_ne both.1 both.2

/-- A list in the order of its keys is known by its members. -/
theorem Increasing.eq_of_mem_iff {other : List α} (increasing : Increasing key log)
    (otherIncreasing : Increasing key other) (same : ∀ item, item ∈ log ↔ item ∈ other) :
    log = other := by
  have distinct {list : List α} (rises : Increasing key list) : list.Nodup :=
    rises.imp fun {_ _} less equal => (less.ne (congrArg key equal))
  have moved : log.Perm other :=
    (List.perm_ext_iff_of_nodup (distinct increasing) (distinct otherIncreasing)).mpr same
  refine moved.eq_of_pairwise ?_ increasing otherIncreasing
  intro first second _ _ less greater
  exact absurd (less.trans greater) (lt_irrefl _)

theorem Increasing.le_last {last : α} (increasing : Increasing key log)
    (ends : log.getLast? = some last) (member : item ∈ log) : key item ≤ key last := by
  obtain ⟨earlier, rfl⟩ := List.getLast?_eq_some_iff.mp ends
  rcases List.mem_append.mp member with before | same
  · exact ((List.pairwise_append.mp increasing).2.2 item before last List.mem_cons_self).le
  · rw [List.mem_singleton.mp same]

theorem Increasing.eq_of_key {other : α} (increasing : Increasing key log)
    (member : item ∈ log) (otherMember : other ∈ log) (same : key item = key other) :
    item = other := by
  refine List.inj_on_of_nodup_map ?_ member otherMember same
  refine List.pairwise_map.mpr (increasing.imp ?_)
  intro first second less
  exact less.ne

theorem Increasing.getLast?_of_greatest (increasing : Increasing key log)
    (member : item ∈ log) (greatest : ∀ other ∈ log, key other ≤ key item) :
    log.getLast? = some item := by
  cases ends : log.getLast? with
  | none =>
      rw [List.getLast?_eq_none_iff.mp ends] at member
      cases member
  | some last =>
      have inside := List.mem_of_getLast? ends
      have same := le_antisymm (greatest last inside) (increasing.le_last ends member)
      rw [increasing.eq_of_key inside member same]

/-- After a page the cursor stands at its last item, and the rest is what is later. -/
theorem later_of_page {page rest : List α} {last : α} (distinct : (log.map key).Nodup)
    (split : later key cursor log = page ++ rest) (ends : page.getLast? = some last) :
    later key (key last) log = rest := by
  have increasing : Increasing key (later key cursor log) := increasing_later distinct
  rw [split] at increasing
  obtain ⟨ofPage, ofRest, across⟩ := List.pairwise_append.mp increasing
  obtain ⟨earlier, rfl⟩ := List.getLast?_eq_some_iff.mp ends
  have member (item : α) : item ∈ earlier ++ [last] ++ rest ↔ item ∈ log ∧ cursor < key item := by
    rw [← split, mem_later]
  refine (increasing_later distinct).eq_of_mem_iff ofRest ?_
  intro item
  rw [mem_later]
  constructor
  · rintro ⟨stored, above⟩
    have past : cursor < key last := ((member last).mp (by simp)).2
    rcases List.mem_append.mp ((member item).mpr ⟨stored, past.trans above⟩) with inPage | inRest
    · rcases List.mem_append.mp inPage with before | same
      · have less := (List.pairwise_append.mp ofPage).2.2 item before last List.mem_cons_self
        exact absurd (less.trans above) (lt_irrefl _)
      · rw [List.mem_singleton.mp same] at above
        exact absurd above (lt_irrefl _)
    · exact inRest
  · intro inRest
    have stored := (member item).mp (List.mem_append_right _ inRest)
    exact ⟨stored.1, across last (by simp) item inRest⟩

theorem later_snoc (distinct : (log.map key).Nodup)
    (greatest : ∀ stored ∈ log, key stored < key item) :
    later key cursor (log ++ [item]) =
      later key cursor log ++ if cursor < key item then [item] else [] := by
  have grown : ((log ++ [item]).map key).Nodup := by
    rw [List.map_append, List.nodup_append]
    refine ⟨distinct, List.nodup_singleton _, ?_⟩
    intro first inLog second single
    obtain ⟨stored, member, rfl⟩ := List.mem_map.mp inLog
    rw [List.mem_singleton.mp single]
    exact (greatest stored member).ne
  refine (increasing_later grown).eq_of_mem_iff ?_ ?_
  · refine List.pairwise_append.mpr ⟨increasing_later distinct, ?_, ?_⟩
    · split
      · exact List.pairwise_singleton _ _
      · exact List.Pairwise.nil
    · intro stored member last isLast
      split at isLast
      · rw [List.mem_singleton.mp isLast]
        exact greatest stored (mem_later.mp member).1
      · cases isLast
  · intro other
    rw [mem_later, List.mem_append, List.mem_append, mem_later, or_and_right]
    refine or_congr Iff.rfl ?_
    constructor
    · rintro ⟨single, above⟩
      rw [List.mem_singleton.mp single] at above ⊢
      rw [if_pos above]
      exact List.mem_cons_self
    · intro isLast
      split at isLast
      · exact ⟨isLast, List.mem_singleton.mp isLast ▸ ‹_›⟩
      · cases isLast

end Paging
