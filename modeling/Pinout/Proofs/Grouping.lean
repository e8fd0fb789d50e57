import Mathlib.Data.List.Nodup
import Mathlib.Data.List.Perm.Basic

/-! Sorting the items of a list into groups. An item is in the group of its key; when
every key has one group, the groups together hold each item as often as the list did. -/

set_option autoImplicit false

namespace Pinout.Grouping

variable {α β κ : Type}

theorem nodup_eraseDups [DecidableEq α] (items : List α) : items.eraseDups.Nodup := by
  match items with
  | [] => simp
  | first :: rest =>
      rw [List.eraseDups_cons, List.nodup_cons]
      refine ⟨?_, nodup_eraseDups (rest.filter fun item => !item == first)⟩
      simp [List.mem_eraseDups]
termination_by items.length
decreasing_by exact Nat.lt_succ_of_le (List.length_filter_le _ _)

/-- The groups of distinct keys hold every item with one of the keys, each once. -/
theorem perm_flatMap_filter [DecidableEq κ] {key : α → Option κ} {keys : List κ}
    (unique : keys.Nodup) (items : List α)
    (covered : ∀ item ∈ items, ∀ k, key item = some k → k ∈ keys) :
    (keys.flatMap fun k => items.filter fun item => key item = some k).Perm
      (items.filter fun item => (key item).isSome) := by
  induction keys generalizing items with
  | nil =>
      have keyless : (items.filter fun item => (key item).isSome) = [] := by
        simp only [List.filter_eq_nil_iff, Bool.not_eq_true, Option.isSome_eq_false_iff,
          Option.isNone_iff_eq_none, Option.eq_none_iff_forall_ne_some]
        intro item member k has
        exact List.not_mem_nil (covered item member k has)
      simp [keyless]
  | cons first rest ih =>
      obtain ⟨fresh, unique⟩ := List.nodup_cons.mp unique
      let others := items.filter fun item => ¬ key item = some first
      have kept : ∀ k ∈ rest, (items.filter fun item => key item = some k) =
          others.filter fun item => key item = some k := by
        intro k member
        rw [List.filter_filter]
        apply List.filter_congr
        intro item _
        by_cases here : key item = some k
        · have apart : k ≠ first := fun same => fresh (same ▸ member)
          simp [here, apart]
        · simp [here]
      have grouped := ih unique others (by
        intro item member k has
        obtain ⟨inside, elsewhere⟩ := List.mem_filter.mp member
        have listed := covered item inside k has
        rcases List.mem_cons.mp listed with rfl | later
        · simp [has] at elsewhere
        · exact later)
      rw [List.flatMap_cons, List.flatMap_congr kept]
      have split := List.filter_append_perm (fun item => decide (key item = some first))
        (items.filter fun item => (key item).isSome)
      refine .trans (.append ?_ (.trans grouped ?_)) split
      · rw [List.filter_filter]
        apply List.Perm.of_eq
        apply List.filter_congr
        intro item _
        by_cases here : key item = some first <;> simp [here]
      · rw [List.filter_filter, List.filter_filter]
        apply List.Perm.of_eq
        apply List.filter_congr
        intro item _
        simp [Bool.and_comm]

/-- Two tests that no item passes together share out the items that pass either. -/
theorem filter_append_filter_perm {left right : α → Bool} {items : List α}
    (apart : ∀ item ∈ items, left item = true → right item = false) :
    (items.filter left ++ items.filter right).Perm
      (items.filter fun item => left item || right item) := by
  refine .trans ?_ (List.filter_append_perm left _)
  rw [List.filter_filter, List.filter_filter]
  apply List.Perm.of_eq
  congr 1
  · apply List.filter_congr
    intro item _
    cases left item <;> simp
  · apply List.filter_congr
    intro item member
    cases passes : left item with
    | false => simp
    | true => simp [apart item member passes]

/-- Parts that carry the keys of their items are grouped as the items are. -/
theorem filter_flatMap_key [DecidableEq κ] {items : List α} {parts : α → List β} {key : α → κ}
    {name : β → κ} (named : ∀ item ∈ items, ∀ part ∈ parts item, name part = key item) (k : κ) :
    ((items.flatMap parts).filter fun part => name part = k) =
      (items.filter fun item => key item = k).flatMap parts := by
  induction items with
  | nil => rfl
  | cons first rest ih =>
      have others := ih fun item member => named item (List.mem_cons_of_mem first member)
      have carried := named first List.mem_cons_self
      rw [List.flatMap_cons, List.filter_append, others]
      by_cases here : key first = k
      · have whole : ((parts first).filter fun part => name part = k) = parts first := by
          rw [List.filter_eq_self]
          exact fun part inside => by simp [carried part inside, here]
        rw [whole, List.filter_cons_of_pos (by simpa using here), List.flatMap_cons]
      · have none : ((parts first).filter fun part => name part = k) = [] := by
          rw [List.filter_eq_nil_iff]
          exact fun part inside => by simp [carried part inside, here]
        rw [none, List.nil_append, List.filter_cons_of_neg (by simpa using here)]

theorem find?_key_eq_some_iff [DecidableEq κ] {key : α → κ} {items : List α}
    (unique : (items.map key).Nodup) {k : κ} {item : α} :
    (items.find? fun candidate => key candidate = k) = some item ↔
      item ∈ items ∧ key item = k := by
  constructor
  · intro found
    exact ⟨List.mem_of_find?_eq_some found, by simpa using List.find?_some found⟩
  · intro given
    obtain ⟨member, rfl⟩ := given
    cases found : items.find? fun candidate => key candidate = key item with
    | none => simpa using List.find?_eq_none.mp found item member
    | some other =>
        have named : key other = key item := by simpa using List.find?_some found
        rw [List.inj_on_of_nodup_map unique (List.mem_of_find?_eq_some found) member named]

theorem filter_key_eq_singleton [DecidableEq κ] {key : α → κ} {items : List α}
    (unique : (items.map key).Nodup) {item : α} (member : item ∈ items) :
    (items.filter fun candidate => key candidate = key item) = [item] := by
  induction items with
  | nil => cases member
  | cons first rest ih =>
      obtain ⟨fresh, unique⟩ := List.nodup_cons.mp unique
      rcases List.mem_cons.mp member with rfl | later
      · have others : (rest.filter fun candidate => key candidate = key item) = [] := by
          simp only [List.filter_eq_nil_iff, decide_eq_true_eq]
          exact fun other inside same => fresh (List.mem_map.mpr ⟨other, inside, same⟩)
        simp [others]
      · have apart : key first ≠ key item :=
          fun same => fresh (List.mem_map.mpr ⟨item, later, same.symm⟩)
        simp [apart, ih unique later]

/-- Among items with distinct keys, two or more pass a test exactly when two with
different keys do. -/
theorem filter_eq_cons_cons_iff {key : α → κ} {items : List α}
    (unique : (items.map key).Nodup) (test : α → Bool) :
    (∃ first second rest, items.filter test = first :: second :: rest) ↔
      ∃ left ∈ items, ∃ right ∈ items,
        key left ≠ key right ∧ test left = true ∧ test right = true := by
  have passed {item : α} : item ∈ items.filter test ↔ item ∈ items ∧ test item = true :=
    List.mem_filter
  constructor
  · intro given
    obtain ⟨first, second, rest, found⟩ := given
    have left := passed.mp (found ▸ List.mem_cons_self)
    have right := passed.mp (found ▸ List.mem_cons_of_mem _ List.mem_cons_self)
    have apart : ((items.filter test).map key).Nodup :=
      unique.sublist (List.filter_sublist.map key)
    rw [found, List.map_cons, List.map_cons, List.nodup_cons] at apart
    refine ⟨first, left.1, second, right.1, ?_, left.2, right.2⟩
    exact fun same => apart.1 (same ▸ List.mem_cons_self)
  · intro given
    obtain ⟨left, leftMember, right, rightMember, apart, leftPasses, rightPasses⟩ := given
    have leftFound := passed.mpr ⟨leftMember, leftPasses⟩
    have rightFound := passed.mpr ⟨rightMember, rightPasses⟩
    cases found : items.filter test with
    | nil =>
        rw [found] at leftFound
        exact absurd leftFound List.not_mem_nil
    | cons first others =>
        cases others with
        | nil =>
            rw [found, List.mem_singleton] at leftFound rightFound
            exact absurd (by rw [leftFound, rightFound]) apart
        | cons second rest => exact ⟨first, second, rest, rfl⟩

theorem pairwise_of_distinct {key : α → κ} {items : List α} {related : α → α → Prop}
    (unique : (items.map key).Nodup)
    (apart : ∀ left ∈ items, ∀ right ∈ items, key left ≠ key right → related left right) :
    items.Pairwise related :=
  (List.pairwise_map.mp unique).imp_of_mem fun leftMember rightMember distinct =>
    apart _ leftMember _ rightMember distinct

/-! ## Lists in another order -/

/-- The first item that passes a test is the same in any order if only one passes. -/
theorem find?_eq_of_perm {left right : List α} {test : α → Bool} (perm : left.Perm right)
    (single : ∀ item ∈ left, ∀ other ∈ left, test item = true → test other = true →
      item = other) : left.find? test = right.find? test := by
  cases found : left.find? test with
  | none =>
      symm
      rw [List.find?_eq_none] at found ⊢
      exact fun item member => found item (perm.mem_iff.mpr member)
  | some item =>
      have member := List.mem_of_find?_eq_some found
      have passes := List.find?_some found
      cases other : right.find? test with
      | none =>
          rw [List.find?_eq_none] at other
          exact absurd passes (other item (perm.mem_iff.mp member))
      | some late =>
          have inside := perm.mem_iff.mpr (List.mem_of_find?_eq_some other)
          rw [single item member late inside passes (List.find?_some other)]

/-- Sorting by a number does away with the order of a list whose items it tells apart. -/
theorem sort_eq_of_perm {left right : List α} (key : α → UInt8) (perm : left.Perm right)
    (distinct : ∀ item ∈ left, ∀ other ∈ left, key item = key other → item = other) :
    left.mergeSort (fun item other => key item ≤ key other) =
      right.mergeSort fun item other => key item ≤ key other := by
  have sorted (items : List α) :
      (items.mergeSort fun item other => key item ≤ key other).Pairwise
        fun item other => decide (key item ≤ key other) = true := by
    apply List.pairwise_mergeSort
    · intro first second third
      simpa only [decide_eq_true_eq] using UInt8.le_trans
    · intro first second
      simpa only [Bool.or_eq_true, decide_eq_true_eq] using UInt8.le_total _ _
  refine List.Perm.eq_of_pairwise ?_ (sorted left) (sorted right)
    (((List.mergeSort_perm left _).trans perm).trans (List.mergeSort_perm right _).symm)
  intro item other member inside before after
  have otherMember := perm.mem_iff.mpr (List.mem_mergeSort.mp inside)
  apply distinct item (List.mem_mergeSort.mp member) other otherMember
  exact UInt8.le_antisymm (of_decide_eq_true before) (of_decide_eq_true after)

/-! ## Stable order -/

section Stable

variable [DecidableEq κ] {key : α → κ}

/-- Sorting leaves the items of one key in the order in which they were. -/
theorem filter_mergeSort_key {before : α → α → Bool}
    (trans : ∀ first second third, before first second = true → before second third = true →
      before first third = true)
    (total : ∀ left right, (before left right || before right left) = true)
    (tied : ∀ left right, key left = key right → before left right = true)
    (items : List α) (k : κ) :
    ((items.mergeSort before).filter fun item => key item = k) =
      items.filter fun item => key item = k := by
  have sorted : (items.filter fun item => key item = k).Pairwise fun left right =>
      before left right = true := by
    refine List.pairwise_of_forall_mem_list fun left leftMember right rightMember => ?_
    simp only [List.mem_filter, decide_eq_true_eq] at leftMember rightMember
    exact tied left right (leftMember.2.trans rightMember.2.symm)
  have kept := (List.sublist_mergeSort trans total sorted List.filter_sublist).filter
    fun item => key item = k
  rw [List.filter_filter] at kept
  simp only [Bool.and_self] at kept
  exact (kept.eq_of_length ((List.mergeSort_perm items before).filter _).symm.length_eq).symm

theorem mem_iff_of_filter_key {left right : List α}
    (same : ∀ k, (left.filter fun item => key item = k) = right.filter fun item => key item = k)
    (item : α) : item ∈ left ↔ item ∈ right := by
  have members := congrArg (item ∈ ·) (same (key item))
  simpa using members

/-- A sorted list is known by the items that it has of each key, in order. -/
theorem eq_of_filter_key {before : α → α → Prop} {left right : List α}
    (tied : ∀ first second, before first second → before second first → key first = key second)
    (leftSorted : left.Pairwise before) (rightSorted : right.Pairwise before)
    (same : ∀ k, (left.filter fun item => key item = k) = right.filter fun item => key item = k) :
    left = right := by
  have shared := mem_iff_of_filter_key same
  induction left generalizing right with
  | nil => exact (List.eq_nil_iff_forall_not_mem.mpr fun item member =>
      List.not_mem_nil ((shared item).mpr member)).symm
  | cons first rest ih =>
      cases right with
      | nil => exact absurd ((shared first).mp List.mem_cons_self) List.not_mem_nil
      | cons other others =>
          obtain ⟨firstBefore, restSorted⟩ := List.pairwise_cons.mp leftSorted
          obtain ⟨otherBefore, othersSorted⟩ := List.pairwise_cons.mp rightSorted
          -- Each of the two heads stands somewhere in the other list, so they have one key.
          have keys : key first = key other := by
            rcases List.mem_cons.mp ((shared first).mp List.mem_cons_self) with rfl | late
            · rfl
            rcases List.mem_cons.mp ((shared other).mpr List.mem_cons_self) with rfl | later
            · rfl
            · exact tied first other (firstBefore other later) (otherBefore first late)
          have heads := same (key first)
          rw [List.filter_cons_of_pos (by simp), List.filter_cons_of_pos (by simp [keys])] at heads
          obtain ⟨rfl, _⟩ := List.cons.inj heads
          have tails (k : κ) : (rest.filter fun item => key item = k) =
              others.filter fun item => key item = k := by
            have both := same k
            by_cases here : key first = k
            · rw [List.filter_cons_of_pos (by simpa using here),
                List.filter_cons_of_pos (by simpa using here)] at both
              exact (List.cons.inj both).2
            · rwa [List.filter_cons_of_neg (by simpa using here),
                List.filter_cons_of_neg (by simpa using here)] at both
          rw [ih restSorted othersSorted tails (mem_iff_of_filter_key tails)]

/-- Where items of one key are in one order and all items in another, each two items are in the
second order, and in the first one too if they have one key. -/
theorem pairwise_and_of_filter_key {before within : α → α → Prop} {items : List α}
    (sorted : items.Pairwise before)
    (tied : ∀ k, (items.filter fun item => key item = k).Pairwise within) :
    items.Pairwise fun left right =>
      before left right ∧ (key left = key right → within left right) := by
  induction items with
  | nil => exact .nil
  | cons first rest ih =>
      obtain ⟨firstBefore, restSorted⟩ := List.pairwise_cons.mp sorted
      refine List.pairwise_cons.mpr ⟨fun other member => ⟨firstBefore other member, ?_⟩, ?_⟩
      · intro same
        have group := tied (key first)
        rw [List.filter_cons_of_pos (by simp), List.pairwise_cons] at group
        exact group.1 other (List.mem_filter.mpr ⟨member, by simp [same]⟩)
      · refine ih restSorted fun k => ?_
        exact (tied k).sublist ((List.sublist_cons_self first rest).filter _)

end Stable

/-! ## Sorted lists -/

/-- Of a list in the order of ranks, the items of one rank stand together: behind the lower
ones, for as long as the rank lasts. -/
theorem takeWhile_dropWhile_eq_filter {rank : α → Nat} {items : List α}
    (sorted : items.Pairwise fun left right => rank left ≤ rank right) (k : Nat) :
    ((items.dropWhile fun item => rank item < k).takeWhile fun item => rank item = k) =
      items.filter fun item => rank item = k := by
  induction items with
  | nil => rfl
  | cons first rest ih =>
      obtain ⟨lowest, restSorted⟩ := List.pairwise_cons.mp sorted
      have more := ih restSorted
      by_cases low : rank first < k
      · rw [List.dropWhile_cons_of_pos (by simpa using low), more,
          List.filter_cons_of_neg (by simp; omega)]
      · have whole : (rest.dropWhile fun item => rank item < k) = rest := by
          cases rest with
          | nil => rfl
          | cons second others =>
              have bound := lowest second List.mem_cons_self
              exact List.dropWhile_cons_of_neg (by simp; omega)
        rw [List.dropWhile_cons_of_neg (by simpa using low)]
        by_cases here : rank first = k
        · rw [List.takeWhile_cons_of_pos (by simpa using here),
            List.filter_cons_of_pos (by simpa using here), ← more, whole]
        · have none : ((first :: rest).filter fun item => rank item = k) = [] := by
            rw [List.filter_eq_nil_iff]
            intro item member
            have bound : rank first ≤ rank item := by
              rcases List.mem_cons.mp member with rfl | later
              · exact Nat.le_refl _
              · exact lowest item later
            simp only [decide_eq_true_eq]
            omega
          rw [List.takeWhile_cons_of_neg (by simpa using here), none]

/-- What a list names, item by item or not at all, it names in the order of its items. -/
theorem map_filterMap_sublist {found : α → Option β} {name : β → κ} {key : α → κ} {items : List α}
    (named : ∀ item ∈ items, ∀ part, found item = some part → name part = key item) :
    ((items.filterMap found).map name).Sublist (items.map key) := by
  induction items with
  | nil => exact .slnil
  | cons first rest ih =>
      have more := ih fun item member => named item (List.mem_cons_of_mem first member)
      cases here : found first with
      | none =>
          rw [List.filterMap_cons_none here, List.map_cons]
          exact more.cons _
      | some part =>
          rw [List.filterMap_cons_some here, List.map_cons, List.map_cons,
            named first List.mem_cons_self part here]
          exact more.cons_cons _

/-! ## Lists that grow at the end -/

/-- Where an item stands in a list that ends in a known one: at its end or before. -/
theorem concat_eq_append_cons_iff {items before after : List α} {last item : α} :
    items ++ [last] = before ++ item :: after ↔
      (after = [] ∧ items = before ∧ last = item) ∨
        ∃ front, after = front ++ [last] ∧ items = before ++ item :: front := by
  rcases List.eq_nil_or_concat after with rfl | ⟨front, other, rfl⟩
  · simp
  · rw [List.concat_eq_append, ← List.cons_append, ← List.append_assoc]
    constructor
    · intro split
      obtain ⟨same, ends⟩ := List.append_inj' split rfl
      exact .inr ⟨front, by rw [ends], same⟩
    · rintro (⟨empty, _⟩ | ⟨others, same, rfl⟩)
      · exact absurd empty (by simp)
      · obtain ⟨rfl, ends⟩ := List.append_inj' same rfl
        rw [ends]

end Pinout.Grouping
