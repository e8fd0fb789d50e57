import Mathlib.Data.List.Induction
import Pinout.Proofs.Resolution.Bank

/-! Banks as an ordered partition. The banks stand in the order in which their timers are first
used, and share out the placements at a timer; within a bank these stand by family and number, and
else as they were. No other list of banks is like that. The banks of a longer list come from
those of a shorter one: a placement joins the bank of its timer, or opens one. -/

set_option autoImplicit false

namespace Pinout.Resolution

variable {placements : List Placement} {placement : Placement} {banks : List Bank}
  {target : Instance}

/-- What decides the place of an output in its bank: its family, and its number. -/
def Placement.key (placement : Placement) : Option Family × UInt8 :=
  (placement.family?, placement.id.index)

/-- No family comes before the families, and these are in their order. -/
def familyRank : Option Family → Nat
  | none => 0
  | some family => family.rank + 1

/-- By family, and within a family by number. -/
def KeyLe (left right : Option Family × UInt8) : Prop :=
  familyRank left.1 < familyRank right.1 ∨ left.1 = right.1 ∧ left.2 ≤ right.2

/-- The position of the first placement that is at the timer. -/
def firstUse (placements : List Placement) (target : Instance) : Nat :=
  placements.findIdx fun placement => placement.target? = some target

/-- The banks share out the placements, in order. -/
structure SharesOut (placements : List Placement) (banks : List Bank) : Prop where
  apart : (banks.map Bank.target).Nodup
  ordered : banks.Pairwise fun left right =>
    firstUse placements left.target < firstUse placements right.target
  filled : ∀ bank ∈ banks, bank.channels ≠ []
  covered : ∀ placement ∈ placements, ∀ target, placement.target? = some target →
    ∃ bank ∈ banks, bank.target = target
  gathered : ∀ bank ∈ banks, bank.channels.Perm
    (placements.filter fun placement => placement.target? = some bank.target)
  placed : ∀ bank ∈ banks, ∀ placement ∈ bank.channels, placement.entry ≠ none
  sorted : ∀ bank ∈ banks, bank.channels.Pairwise fun left right => KeyLe left.key right.key
  stable : ∀ bank ∈ banks, ∀ key, (bank.channels.filter fun placement => placement.key = key) =
    placements.filter fun placement => placement.target? = some bank.target ∧ placement.key = key

/-! ## Order within banks -/

theorem familyRank_inj {left right : Option Family} :
    familyRank left = familyRank right ↔ left = right := by
  rcases left with _ | _ | _ | _ <;> rcases right with _ | _ | _ | _ <;> decide

theorem channelPrecedes_iff {left right : Placement} :
    channelPrecedes left right = true ↔ KeyLe left.key right.key := by
  simp only [channelPrecedes, KeyLe, Placement.key, ← familyRank_inj, Bool.or_eq_true,
    Bool.and_eq_true, decide_eq_true_eq, beq_iff_eq]
  rfl

theorem key_eq_of_keyLe {left right : Placement} (before : KeyLe left.key right.key)
    (after : KeyLe right.key left.key) : left.key = right.key := by
  rcases before with less | ⟨family, index⟩
  · rcases after with more | ⟨same, _⟩
    · omega
    · rw [same] at less
      omega
  · rcases after with more | ⟨_, other⟩
    · rw [family] at more
      omega
    · exact Prod.ext family (UInt8.le_antisymm index other)

theorem channelPrecedes_of_key {left right : Placement} (same : left.key = right.key) :
    channelPrecedes left right = true := by
  rw [channelPrecedes_iff, same]
  exact .inr ⟨rfl, UInt8.le_refl _⟩

/-! ## Timers in order of first use -/

/-- The timers of the placements, each once. -/
def targetsOf (placements : List Placement) : List Instance :=
  (placements.filterMap Placement.target?).eraseDups

theorem mem_targetsOf_iff : target ∈ targetsOf placements ↔
    ∃ placement ∈ placements, placement.target? = some target := by
  rw [targetsOf, List.mem_eraseDups, List.mem_filterMap]

theorem filter_target_eq_nil (unknown : target ∉ targetsOf placements) :
    (placements.filter fun placement => placement.target? = some target) = [] := by
  refine List.filter_eq_nil_iff.mpr fun placement member => ?_
  simpa using fun same => unknown (mem_targetsOf_iff.mpr ⟨placement, member, same⟩)

/-- A further placement adds its timer, if it has one that is not there yet. -/
theorem targetsOf_concat (placements : List Placement) (placement : Placement) :
    targetsOf (placements ++ [placement]) = targetsOf placements ++
      placement.target?.toList.filter (· ∉ targetsOf placements) := by
  simp only [targetsOf, List.filterMap_append, List.eraseDups_append, List.mem_eraseDups]
  cases placed : placement.target? with
  | none => simp [placed, List.removeAll]
  | some target =>
      by_cases known : target ∈ placements.filterMap Placement.target? <;>
        simp [placed, List.removeAll, known, List.eraseDups_cons, -List.mem_filterMap]

theorem firstUse_lt_iff : firstUse placements target < placements.length ↔
    target ∈ targetsOf placements := by
  rw [firstUse, List.findIdx_lt_length, mem_targetsOf_iff]
  simp

theorem firstUse_append (back : List Placement) : firstUse (placements ++ back) target =
    if target ∈ targetsOf placements then firstUse placements target
    else firstUse back target + placements.length := by
  simp only [← firstUse_lt_iff]
  exact List.findIdx_append

theorem pairwise_targetsOf (placements : List Placement) :
    (targetsOf placements).Pairwise fun left right =>
      firstUse placements left < firstUse placements right := by
  induction placements using List.reverseRecOn with
  | nil => exact .nil
  | append_singleton front last ih =>
      rw [targetsOf_concat, List.pairwise_append]
      refine ⟨?_, ?_, ?_⟩
      · refine ih.imp_of_mem fun leftMember rightMember before => ?_
        rwa [firstUse_append, if_pos leftMember, firstUse_append, if_pos rightMember]
      · cases last.target? with
        | none => exact .nil
        | some target => exact (List.pairwise_singleton _ target).sublist List.filter_sublist
      · intro left known right new
        have unknown : right ∉ targetsOf front := by simpa using (List.mem_filter.mp new).2
        have early := firstUse_lt_iff.mpr known
        rw [firstUse_append, if_pos known, firstUse_append, if_neg unknown]
        omega

/-! ## The partition -/

theorem filter_channels {bank : Bank} (member : bank ∈ banksOf placements)
    (key : Option Family × UInt8) :
    (bank.channels.filter fun placement => placement.key = key) =
      placements.filter fun placement =>
        placement.target? = some bank.target ∧ placement.key = key := by
  obtain ⟨target, _, rfl⟩ := List.mem_map.mp member
  have stable := @Grouping.filter_mergeSort_key _ _ _ Placement.key channelPrecedes
    (fun _ _ _ => channelPrecedes_trans) channelPrecedes_total fun _ _ => channelPrecedes_of_key
  refine (stable _ key).trans ?_
  rw [List.filter_filter]
  exact List.filter_congr fun placement _ => by simp [and_comm]

theorem pairwise_key {bank : Bank} (member : bank ∈ banksOf placements) :
    bank.channels.Pairwise fun left right => KeyLe left.key right.key := by
  obtain ⟨target, _, rfl⟩ := List.mem_map.mp member
  have sorted := @List.pairwise_mergeSort _ channelPrecedes
    (fun _ _ _ => channelPrecedes_trans) channelPrecedes_total
  exact (sorted _).imp fun before => channelPrecedes_iff.mp before

theorem sharesOut_banksOf (placements : List Placement) :
    SharesOut placements (banksOf placements) where
  apart := nodup_targets placements
  ordered := by
    have early := pairwise_targetsOf placements
    rwa [targetsOf, ← map_target_banksOf, List.pairwise_map] at early
  filled := by
    intro bank member empty
    have used : bank.target ∈ targetsOf placements := by
      rw [targetsOf, ← map_target_banksOf]
      exact List.mem_map_of_mem member
    obtain ⟨placement, inside, placed⟩ := mem_targetsOf_iff.mp used
    have channel := (mem_channels_iff member).mpr ⟨inside, placed⟩
    rw [empty] at channel
    exact List.not_mem_nil channel
  covered := fun _ member _ placed => exists_bank member placed
  gathered := fun _ member => channels_perm member
  placed := by
    intro bank member placement inside empty
    have placed := ((mem_channels_iff member).mp inside).2
    simp [Placement.target?, empty] at placed
  sorted := fun _ member => pairwise_key member
  stable := fun _ member => filter_channels member

/-- The timers of the banks are those of the placements, and stand in the same order. -/
theorem SharesOut.map_target (shared : SharesOut placements banks) :
    banks.map Bank.target = targetsOf placements := by
  have same : (banks.map Bank.target).Perm (targetsOf placements) := by
    refine (List.perm_ext_iff_of_nodup shared.apart (Grouping.nodup_eraseDups _)).mpr ?_
    intro target
    refine Iff.trans ?_ mem_targetsOf_iff.symm
    constructor
    · intro listed
      obtain ⟨bank, member, rfl⟩ := List.mem_map.mp listed
      obtain ⟨placement, channel⟩ := List.exists_mem_of_ne_nil _ (shared.filled bank member)
      have inside := (shared.gathered bank member).mem_iff.mp channel
      rw [List.mem_filter, decide_eq_true_eq] at inside
      exact ⟨placement, inside⟩
    · intro ⟨placement, inside, placed⟩
      obtain ⟨bank, member, rfl⟩ := shared.covered placement inside target placed
      exact List.mem_map_of_mem member
  refine same.eq_of_pairwise ?_ (List.pairwise_map.mpr shared.ordered)
    (pairwise_targetsOf placements)
  intro left right _ _ before after
  omega

/-- The banks are the one list that shares out the placements in order. -/
theorem sharesOut_iff : SharesOut placements banks ↔ banks = banksOf placements := by
  refine ⟨fun shared => ?_, fun same => same ▸ sharesOut_banksOf placements⟩
  have targets : banks.map Bank.target = (banksOf placements).map Bank.target :=
    shared.map_target.trans (sharesOut_banksOf placements).map_target.symm
  refine List.ext_getElem (by simpa using congrArg List.length targets) ?_
  intro position left right
  have bank := List.getElem_mem left
  have other := List.getElem_mem right
  have target : banks[position].target = (banksOf placements)[position].target := by
    have both := List.getElem_of_eq targets (by simpa using left)
    simpa using both
  have channels : banks[position].channels = (banksOf placements)[position].channels := by
    refine Grouping.eq_of_filter_key (fun _ _ before after => key_eq_of_keyLe before after)
      (shared.sorted _ bank) (pairwise_key other) fun key => ?_
    rw [shared.stable _ bank, filter_channels other, target]
  rw [Bank.mk.injEq]
  exact ⟨target, channels⟩

/-! ## One placement after another -/

/-- Put a placement last in the bank of the timer, or open that bank. -/
def enroll (target : Instance) (placement : Placement) : List Bank → List Bank
  | [] => [⟨target, [placement]⟩]
  | bank :: rest =>
    if bank.target = target then ⟨target, bank.channels ++ [placement]⟩ :: rest
    else bank :: enroll target placement rest

/-- The banks once a further placement is known. -/
def Placement.join (banks : List Bank) (placement : Placement) : List Bank :=
  match placement.target? with
  | none => banks
  | some target => enroll target placement banks

/-- A bank with its channels in order. -/
def Bank.arranged (bank : Bank) : Bank :=
  ⟨bank.target, bank.channels.mergeSort channelPrecedes⟩

/-- The banks of the timers, with their placements as they were. -/
def unarranged (placements : List Placement) : List Bank :=
  (targetsOf placements).map fun target =>
    ⟨target, placements.filter fun placement => placement.target? = some target⟩

theorem enroll_of_not_mem (placement : Placement) (unknown : target ∉ banks.map Bank.target) :
    enroll target placement banks = banks ++ [⟨target, [placement]⟩] := by
  induction banks with
  | nil => rfl
  | cons bank rest ih =>
      rw [List.map_cons, List.mem_cons, not_or] at unknown
      rw [enroll, if_neg (Ne.symm unknown.1), ih unknown.2, List.cons_append]

theorem enroll_of_mem (placement : Placement) (apart : (banks.map Bank.target).Nodup)
    (known : target ∈ banks.map Bank.target) :
    enroll target placement banks = banks.map fun bank =>
      if bank.target = target then ⟨target, bank.channels ++ [placement]⟩ else bank := by
  induction banks with
  | nil => exact absurd known List.not_mem_nil
  | cons bank rest ih =>
      rw [List.map_cons, List.nodup_cons] at apart
      rw [enroll, List.map_cons]
      split
      · rename_i same
        refine congrArg _ (Eq.trans (List.map_id _).symm (List.map_congr_left ?_))
        intro other member
        have different : other.target ≠ target := by
          intro equal
          exact apart.1 (same.trans equal.symm ▸ List.mem_map_of_mem member)
        rw [if_neg different, id_eq]
      · rename_i different
        rw [ih apart.2 ((List.mem_cons.mp known).resolve_left (Ne.symm different))]

theorem map_target_unarranged (placements : List Placement) :
    (unarranged placements).map Bank.target = targetsOf placements := by
  rw [unarranged, List.map_map]
  exact List.map_id _

/-- Taking one more placement is what a longer list asks for. -/
theorem unarranged_concat (placements : List Placement) (placement : Placement) :
    unarranged (placements ++ [placement]) = Placement.join (unarranged placements) placement := by
  have targets := map_target_unarranged placements
  cases placed : placement.target? with
  | none => simp [Placement.join, unarranged, targetsOf_concat, List.filter_append, placed]
  | some target =>
      have joined : Placement.join (unarranged placements) placement =
          enroll target placement (unarranged placements) := by
        simp only [Placement.join, placed]
      rw [joined]
      by_cases known : target ∈ targetsOf placements
      · have same : targetsOf (placements ++ [placement]) = targetsOf placements := by
          simp [targetsOf_concat, placed, known]
        rw [enroll_of_mem placement (targets ▸ Grouping.nodup_eraseDups _) (targets ▸ known),
          unarranged, unarranged, same, List.map_map]
        refine List.map_congr_left fun other _ => ?_
        by_cases here : other = target
        · simp [here, List.filter_append, placed]
        · simp [here, List.filter_append, placed, Ne.symm here]
      · have grown : targetsOf (placements ++ [placement]) =
            targetsOf placements ++ [target] := by
          simp [targetsOf_concat, placed, known]
        rw [enroll_of_not_mem placement (targets ▸ known), unarranged, unarranged, grown,
          List.map_append]
        congr 1
        · refine List.map_congr_left fun other member => ?_
          have different : ¬target = other := fun same => known (same ▸ member)
          simp [List.filter_append, placed, different]
        · simp [List.filter_append, placed, filter_target_eq_nil known]

theorem foldl_join (placements : List Placement) :
    placements.foldl Placement.join [] = unarranged placements := by
  induction placements using List.reverseRecOn with
  | nil => rfl
  | append_singleton front last ih =>
      rw [List.foldl_append, List.foldl_cons, List.foldl_nil, ih, unarranged_concat]

/-- The banks come from taking the placements one after another, and arranging each bank. -/
theorem banksOf_eq_foldl (placements : List Placement) :
    banksOf placements = (placements.foldl Placement.join []).map Bank.arranged := by
  rw [foldl_join, unarranged, List.map_map]
  rfl

end Pinout.Resolution
