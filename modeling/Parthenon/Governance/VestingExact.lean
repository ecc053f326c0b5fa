import Parthenon.Governance.Vesting
import Parthenon.Library.Rounding

namespace Parthenon.Governance

open Library Std

/-! # Vesting in exact arithmetic

The documented formula over unbounded block numbers and amounts, and when the
64-bit computation follows it.
-/

/-- The documented amount: nothing before the cliff, the total after the whole
duration, and the rounded-down share in between. -/
def exactVested (total start cliff duration block : Nat) : Nat :=
  if block < start + cliff then 0
  else if start + cliff + duration ≤ block then total
  else total * (block - start - cliff) / duration

/-- The sums and the product of the computation fit 64 bits at every block. -/
def VestingFits (total start cliff duration : Nat) : Prop :=
  start + cliff + duration < 2 ^ 64 ∧ total % duration * (duration - 1) < 2 ^ 64

instance (total start cliff duration : Nat) : Decidable (VestingFits total start cliff duration) :=
  inferInstanceAs (Decidable (_ ∧ _))

theorem exactVested_mono (total start cliff duration : Nat) {earlier later : Nat}
    (le : earlier ≤ later) :
    exactVested total start cliff duration earlier ≤ exactVested total start cliff duration later := by
  unfold exactVested
  by_cases young : earlier < start + cliff
  · rw [if_pos young]
    exact Nat.zero_le _
  rw [if_neg young, if_neg (show ¬ later < start + cliff by omega)]
  by_cases done : start + cliff + duration ≤ earlier
  · rw [if_pos done, if_pos (done.trans le)]
  rw [if_neg done]
  by_cases finished : start + cliff + duration ≤ later
  · rw [if_pos finished]
    apply Nat.div_le_of_le_mul
    rw [Nat.mul_comm duration]
    exact Nat.mul_le_mul_left _ (by omega)
  · rw [if_neg finished]
    exact Nat.div_le_div_right (Nat.mul_le_mul_left _ (by omega))

theorem exactVested_le (total start cliff duration block : Nat) :
    exactVested total start cliff duration block ≤ total := by
  have bound := exactVested_mono total start cliff duration
    (Nat.le_max_left block (start + cliff + duration))
  refine bound.trans (Nat.le_of_eq ?_)
  unfold exactVested
  rw [if_neg (by omega), if_pos (Nat.le_max_right _ _)]

namespace VestingSchedule

variable (s : VestingSchedule)

/-- The amount the documentation gives for the schedule. -/
def exact (block : UInt64) : Nat :=
  exactVested s.totalAmount.toNat s.startBlock.toNat s.cliffBlocks.toNat s.durationBlocks.toNat
    block.toNat

def Fits : Prop :=
  VestingFits s.totalAmount.toNat s.startBlock.toNat s.cliffBlocks.toNat s.durationBlocks.toNat

/-- What `CreateSchedule` checks. -/
structure Accepted : Prop where
  total : s.totalAmount ≠ 0
  duration : s.durationBlocks ≠ 0

theorem cliffEnd_toNat (fits : s.startBlock.toNat + s.cliffBlocks.toNat < 2 ^ 64) :
    (s.startBlock + s.cliffBlocks).toNat = s.startBlock.toNat + s.cliffBlocks.toNat :=
  toNat_add_of_fits fits

/-- Between the cliff and the end of the vesting the computation splits the product. -/
theorem computeVested_linear (accepted : s.Accepted) {block : UInt64}
    (fits : s.startBlock.toNat + s.cliffBlocks.toNat + s.durationBlocks.toNat < 2 ^ 64)
    (started : s.startBlock.toNat + s.cliffBlocks.toNat ≤ block.toNat)
    (unfinished : block.toNat < s.startBlock.toNat + s.cliffBlocks.toNat + s.durationBlocks.toNat) :
    (s.computeVested block).toNat =
      s.totalAmount.toNat / s.durationBlocks.toNat *
          (block.toNat - s.startBlock.toNat - s.cliffBlocks.toNat) % 2 ^ 64 +
        s.totalAmount.toNat % s.durationBlocks.toNat *
          (block.toNat - s.startBlock.toNat - s.cliffBlocks.toNat) % 2 ^ 64 /
            s.durationBlocks.toNat := by
  have cliffEnd := s.cliffEnd_toNat (by omega)
  have vestEnd : (s.startBlock + s.cliffBlocks + s.durationBlocks).toNat =
      s.startBlock.toNat + s.cliffBlocks.toNat + s.durationBlocks.toNat := by
    rw [toNat_add_of_fits (by omega), cliffEnd]
  have late : s.startBlock + s.cliffBlocks ≤ block := by
    rw [UInt64.le_iff_toNat_le, cliffEnd]
    exact started
  have early : ¬ block ≥ s.startBlock + s.cliffBlocks + s.durationBlocks := by
    rw [ge_iff_le, UInt64.le_iff_toNat_le, vestEnd]
    omega
  have elapsed : (block - (s.startBlock + s.cliffBlocks)).toNat =
      block.toNat - s.startBlock.toNat - s.cliffBlocks.toNat := by
    rw [toNat_sub_of_le late, cliffEnd]
    omega
  have within : block.toNat - s.startBlock.toNat - s.cliffBlocks.toNat < s.durationBlocks.toNat := by
    omega
  have small := linear_le_total s.totalAmount.toNat within
  have word := s.totalAmount.toNat_lt
  unfold computeVested
  rw [if_neg (by simp [accepted.total, accepted.duration])]
  dsimp only
  rw [if_neg (UInt64.not_lt.mpr late), if_neg early, UInt64.toNat_add, UInt64.toNat_mul,
    UInt64.toNat_div, UInt64.toNat_div, UInt64.toNat_mul, UInt64.toNat_mod, elapsed]
  exact Nat.mod_eq_of_lt (by omega)

/-- Where everything fits, the computation is the documented formula. -/
theorem computeVested_exact (accepted : s.Accepted) (fits : s.Fits) (block : UInt64) :
    (s.computeVested block).toNat = s.exact block := by
  obtain ⟨sums, product⟩ := fits
  have cliffEnd := s.cliffEnd_toNat (by omega)
  have vestEnd : (s.startBlock + s.cliffBlocks + s.durationBlocks).toNat =
      s.startBlock.toNat + s.cliffBlocks.toNat + s.durationBlocks.toNat := by
    rw [toNat_add_of_fits (by omega), cliffEnd]
  have live : ¬ (s.totalAmount = 0 ∨ s.durationBlocks = 0) := by
    simp [accepted.total, accepted.duration]
  by_cases young : block.toNat < s.startBlock.toNat + s.cliffBlocks.toNat
  · have before : block < s.startBlock + s.cliffBlocks := by
      rw [UInt64.lt_iff_toNat_lt, cliffEnd]
      exact young
    unfold computeVested exact exactVested
    rw [if_neg live, if_pos before, if_pos young]
    rfl
  by_cases done : s.startBlock.toNat + s.cliffBlocks.toNat + s.durationBlocks.toNat ≤ block.toNat
  · have started : ¬ block < s.startBlock + s.cliffBlocks := by
      rw [UInt64.lt_iff_toNat_lt, cliffEnd]
      exact young
    have finished : block ≥ s.startBlock + s.cliffBlocks + s.durationBlocks := by
      rw [ge_iff_le, UInt64.le_iff_toNat_le, vestEnd]
      exact done
    unfold computeVested exact exactVested
    rw [if_neg live, if_neg young, if_pos done]
    dsimp only
    rw [if_neg started, if_pos finished]
  have within : block.toNat - s.startBlock.toNat - s.cliffBlocks.toNat < s.durationBlocks.toNat := by
    omega
  have quotient := linear_le_total s.totalAmount.toNat within
  have share : s.totalAmount.toNat / s.durationBlocks.toNat *
      (block.toNat - s.startBlock.toNat - s.cliffBlocks.toNat) < 2 ^ 64 := by
    have word := s.totalAmount.toNat_lt
    have whole : s.totalAmount.toNat / s.durationBlocks.toNat * s.durationBlocks.toNat ≤
        s.totalAmount.toNat := Nat.div_mul_le_self _ _
    have part : s.totalAmount.toNat / s.durationBlocks.toNat *
        (block.toNat - s.startBlock.toNat - s.cliffBlocks.toNat) ≤
          s.totalAmount.toNat / s.durationBlocks.toNat * s.durationBlocks.toNat :=
      Nat.mul_le_mul_left _ (Nat.le_of_lt within)
    omega
  have remainder : s.totalAmount.toNat % s.durationBlocks.toNat *
      (block.toNat - s.startBlock.toNat - s.cliffBlocks.toNat) < 2 ^ 64 :=
    Nat.lt_of_le_of_lt (Nat.mul_le_mul_left _ (by omega)) product
  rw [s.computeVested_linear accepted sums (by omega) (by omega), Nat.mod_eq_of_lt share,
    Nat.mod_eq_of_lt remainder, ← split_quotient _ _ (by omega)]
  unfold exact exactVested
  rw [if_neg young, if_neg done]

/-- A start and cliff whose sum wraps vest everything at the last block number. -/
theorem not_exact_of_cliff_wraps (accepted : s.Accepted)
    (wraps : 2 ^ 64 ≤ s.startBlock.toNat + s.cliffBlocks.toNat) :
    (s.computeVested (-1)).toNat ≠ s.exact (-1) := by
  have last : ∀ block : UInt64, block ≤ -1 := by
    intro block
    rw [UInt64.le_iff_toNat_le]
    exact Nat.le_of_lt_succ block.toNat_lt
  have everything : s.computeVested (-1) = s.totalAmount := by
    unfold computeVested
    rw [if_neg (by simp [accepted.total, accepted.duration])]
    dsimp only
    rw [if_neg (UInt64.not_lt.mpr (last _)), if_pos (last _)]
  have nothing : s.exact (-1) = 0 := by
    unfold exact exactVested
    exact if_pos (Nat.lt_of_lt_of_le (-1 : UInt64).toNat_lt wraps)
  rw [everything, nothing]
  exact fun none_ => accepted.total (UInt64.toNat_inj.mp none_)

/-- An end that wraps vests everything at the cliff. -/
theorem not_exact_of_end_wraps (accepted : s.Accepted)
    (cliffFits : s.startBlock.toNat + s.cliffBlocks.toNat < 2 ^ 64)
    (wraps : 2 ^ 64 ≤ s.startBlock.toNat + s.cliffBlocks.toNat + s.durationBlocks.toNat) :
    (s.computeVested (s.startBlock + s.cliffBlocks)).toNat ≠
      s.exact (s.startBlock + s.cliffBlocks) := by
  have cliffEnd := s.cliffEnd_toNat cliffFits
  have word := s.durationBlocks.toNat_lt
  have passed : s.startBlock + s.cliffBlocks ≥ s.startBlock + s.cliffBlocks + s.durationBlocks := by
    rw [ge_iff_le, UInt64.le_iff_toNat_le, UInt64.toNat_add _ s.durationBlocks, cliffEnd]
    omega
  have everything : s.computeVested (s.startBlock + s.cliffBlocks) = s.totalAmount := by
    unfold computeVested
    rw [if_neg (by simp [accepted.total, accepted.duration])]
    dsimp only
    rw [if_neg (UInt64.lt_irrefl _), if_pos passed]
  have positive : 0 < s.durationBlocks.toNat :=
    Nat.pos_of_ne_zero fun none_ => accepted.duration (UInt64.toNat_inj.mp none_)
  have nothing : s.exact (s.startBlock + s.cliffBlocks) = 0 := by
    unfold exact exactVested
    rw [cliffEnd, if_neg (Nat.lt_irrefl _), if_neg (by omega), Nat.sub_sub, Nat.sub_self,
      Nat.mul_zero, Nat.zero_div]
  rw [everything, nothing]
  exact fun none_ => accepted.total (UInt64.toNat_inj.mp none_)

/-- A product of the remainder that overflows is missing at the last block before the end. -/
theorem not_exact_of_product_wraps (accepted : s.Accepted)
    (sums : s.startBlock.toNat + s.cliffBlocks.toNat + s.durationBlocks.toNat < 2 ^ 64)
    (wraps : 2 ^ 64 ≤
      s.totalAmount.toNat % s.durationBlocks.toNat * (s.durationBlocks.toNat - 1)) :
    ∃ block, (s.computeVested block).toNat ≠ s.exact block := by
  have positive : 0 < s.durationBlocks.toNat :=
    Nat.pos_of_ne_zero fun none_ => accepted.duration (UInt64.toNat_inj.mp none_)
  obtain ⟨block, isBlock⟩ : ∃ block : UInt64, block.toNat =
      s.startBlock.toNat + s.cliffBlocks.toNat + s.durationBlocks.toNat - 1 :=
    ⟨UInt64.ofNat _, UInt64.toNat_ofNat_of_lt' (Nat.lt_of_lt_of_le
      (show _ - 1 < 2 ^ 64 by omega) (Nat.le_refl _))⟩
  have elapsed : block.toNat - s.startBlock.toNat - s.cliffBlocks.toNat =
      s.durationBlocks.toNat - 1 := by omega
  refine ⟨block, ?_⟩
  rw [s.computeVested_linear accepted sums (by omega) (by omega), elapsed]
  unfold exact exactVested
  rw [if_neg (by omega), if_neg (by omega), elapsed, split_quotient _ _ positive]
  -- The wrapped product is at least one whole duration below the exact one.
  have less : s.totalAmount.toNat % s.durationBlocks.toNat * (s.durationBlocks.toNat - 1) % 2 ^ 64 +
      s.durationBlocks.toNat ≤
        s.totalAmount.toNat % s.durationBlocks.toNat * (s.durationBlocks.toNat - 1) := by
    have word := s.durationBlocks.toNat_lt
    have parts := Nat.div_add_mod
      (s.totalAmount.toNat % s.durationBlocks.toNat * (s.durationBlocks.toNat - 1)) (2 ^ 64)
    have once := (Nat.one_le_div_iff (by decide)).mpr wraps
    omega
  have lower := Nat.div_le_div_right (c := s.durationBlocks.toNat) less
  rw [Nat.add_div_right _ positive] at lower
  have reduced := Nat.mod_le
    (s.totalAmount.toNat / s.durationBlocks.toNat * (s.durationBlocks.toNat - 1)) (2 ^ 64)
  omega

theorem exact_iff_fits (accepted : s.Accepted) :
    (∀ block, (s.computeVested block).toNat = s.exact block) ↔ s.Fits := by
  refine ⟨fun all => ?_, s.computeVested_exact accepted⟩
  by_cases cliffFits : s.startBlock.toNat + s.cliffBlocks.toNat < 2 ^ 64
  · by_cases sums : s.startBlock.toNat + s.cliffBlocks.toNat + s.durationBlocks.toNat < 2 ^ 64
    · refine ⟨sums, Nat.lt_of_not_le fun wraps => ?_⟩
      obtain ⟨block, wrong⟩ := s.not_exact_of_product_wraps accepted sums wraps
      exact wrong (all block)
    · exact absurd (all _) (s.not_exact_of_end_wraps accepted cliffFits (Nat.le_of_not_lt sums))
  · exact absurd (all _) (s.not_exact_of_cliff_wraps accepted (Nat.le_of_not_lt cliffFits))

end VestingSchedule

namespace VestingRegistry

/-- `Claim` calls one after the other: schedule and block of each. -/
abbrev Claims := List (UInt64 × UInt64)

/-- What the calls on one schedule paid in all. -/
def claimedOn (scheduleId : UInt64) : VestingRegistry → Claims → Nat
  | _, [] => 0
  | registry, (id, block) :: rest =>
      (if id = scheduleId then (registry.claim id block).1.toNat else 0) +
        claimedOn scheduleId (registry.claim id block).2 rest

/-- The schedule follows the documented formula, never vests less later or more
than its total, and no sequence of claims takes more than vested at its latest
block. -/
structure VestsExactly (registry : VestingRegistry) (scheduleId : UInt64)
    (total start cliff duration : Nat) : Prop where
  exact : ∀ block, (registry.getTotalVested scheduleId block).toNat =
    exactVested total start cliff duration block.toNat
  mono : ∀ earlier later, earlier ≤ later →
    registry.getTotalVested scheduleId earlier ≤ registry.getTotalVested scheduleId later
  bounded : ∀ block, (registry.getTotalVested scheduleId block).toNat ≤ total
  claims : ∀ (calls : Claims) (latest : UInt64),
    (∀ call ∈ calls, call.1 = scheduleId → call.2 ≤ latest) →
      registry.claimedOn scheduleId calls ≤ (registry.getTotalVested scheduleId latest).toNat

variable {registry : VestingRegistry} {scheduleId : UInt64}

/-- Claims on a schedule whose vesting is monotone bring what was claimed at most
to what vested at their latest block. -/
theorem claimedOn_le {s : VestingSchedule}
    (mono : ∀ earlier later, earlier ≤ later → s.computeVested earlier ≤ s.computeVested later)
    (calls : Claims) {latest : UInt64}
    (upTo : ∀ call ∈ calls, call.1 = scheduleId → call.2 ≤ latest) {claimed : UInt64}
    (found : registry.schedules[scheduleId]? = some { s with claimedAmount := claimed })
    (within : claimed ≤ s.computeVested latest) :
    claimed.toNat + registry.claimedOn scheduleId calls ≤ (s.computeVested latest).toNat := by
  induction calls generalizing registry claimed with
  | nil => exact within
  | cons call rest ih =>
      obtain ⟨id, block⟩ := call
      have restUpTo : ∀ call ∈ rest, call.1 = scheduleId → call.2 ≤ latest :=
        fun call member => upTo call (List.mem_cons_of_mem _ member)
      unfold claimedOn
      obtain same | ⟨stored, isStored, -, more, paid⟩ := registry.claim_cases id block
      · rw [same, UInt64.toNat_zero, ite_self, Nat.zero_add]
        exact ih restUpTo found within
      rw [paid]
      by_cases here : id = scheduleId
      · subst here
        obtain rfl : stored = { s with claimedAmount := claimed } :=
          Option.some.inj (isStored.symm.trans found)
        have below : claimed ≤ s.computeVested block := UInt64.le_of_lt more
        have reached : s.computeVested block ≤ s.computeVested latest :=
          mono _ _ (upTo (id, block) List.mem_cons_self rfl)
        have sum : claimed + (s.computeVested block - claimed) = s.computeVested block := by
          rw [UInt64.add_comm]
          exact UInt64.sub_add_cancel _ _
        have updated : ({ registry with
            schedules := registry.schedules.insert id
              { s with claimedAmount := s.computeVested block } } : VestingRegistry).schedules[id]? =
            some { s with claimedAmount := s.computeVested block } :=
          ExtTreeMap.getElem?_insert_self
        have later := ih restUpTo updated reached
        have taken := toNat_sub_of_le below
        have order := UInt64.le_iff_toNat_le.mp below
        rw [if_pos rfl]
        change claimed.toNat + ((s.computeVested block - claimed).toNat +
          VestingRegistry.claimedOn id
            { registry with
              schedules := registry.schedules.insert id
                { s with claimedAmount := claimed + (s.computeVested block - claimed) } } rest) ≤ _
        rw [sum]
        omega
      · rw [if_neg here, Nat.zero_add]
        refine ih restUpTo ?_ within
        dsimp only
        rw [getElem?_insert_eq, if_neg here, found]

/-- A schedule just created vests exactly if and only if the sums of its blocks
and the product of its remainder fit 64 bits. -/
theorem createSchedule_vestsExactly_iff (registry : VestingRegistry) (beneficiary : Bytes)
    (total start cliff duration grantId : UInt64)
    (accepted :
      (registry.createSchedule beneficiary total start cliff duration grantId).1 ≠ 0) :
    (registry.createSchedule beneficiary total start cliff duration grantId).2.VestsExactly
        (registry.createSchedule beneficiary total start cliff duration grantId).1
        total.toNat start.toNat cliff.toNat duration.toNat ↔
      VestingFits total.toNat start.toNat cliff.toNat duration.toNat := by
  obtain ⟨named, some_, timed⟩ := registry.createSchedule_accepted accepted
  rw [registry.createSchedule_of_made named some_ timed]
  generalize isSchedule : registry.newSchedule beneficiary total start cliff duration grantId = s
  have sound : s.Accepted := by
    subst isSchedule
    exact ⟨some_, timed⟩
  have vested : ∀ block,
      VestingRegistry.getTotalVested
          ⟨registry.schedules.insert registry.nextId s, registry.nextId + 1⟩ registry.nextId block =
        s.computeVested block := by
    intro block
    unfold getTotalVested
    dsimp only
    rw [ExtTreeMap.getElem?_insert_self]
    subst isSchedule
    rfl
  have exact_ : ∀ block, s.exact block =
      exactVested total.toNat start.toNat cliff.toNat duration.toNat block.toNat := by
    subst isSchedule
    exact fun _ => rfl
  have fits : s.Fits ↔ VestingFits total.toNat start.toNat cliff.toNat duration.toNat := by
    subst isSchedule
    exact Iff.rfl
  rw [← fits, ← s.exact_iff_fits sound]
  constructor
  · intro holds block
    rw [exact_, ← holds.exact block, vested]
  · intro all
    have mono : ∀ earlier later, earlier ≤ later →
        s.computeVested earlier ≤ s.computeVested later := by
      intro earlier later le
      rw [UInt64.le_iff_toNat_le, all, all, exact_, exact_]
      exact exactVested_mono _ _ _ _ (UInt64.le_iff_toNat_le.mp le)
    refine ⟨fun block => ?_, fun earlier later le => ?_, fun block => ?_, fun calls latest upTo => ?_⟩
    · rw [vested, all, exact_]
    · rw [vested, vested]
      exact mono earlier later le
    · rw [vested, all, exact_]
      exact exactVested_le _ _ _ _ _
    · rw [vested]
      have stored : (⟨registry.schedules.insert registry.nextId s, registry.nextId + 1⟩ :
          VestingRegistry).schedules[registry.nextId]? = some { s with claimedAmount := 0 } := by
        dsimp only
        rw [ExtTreeMap.getElem?_insert_self]
        subst isSchedule
        rfl
      have bound := claimedOn_le mono calls upTo stored UInt64.zero_le
      rwa [UInt64.toNat_zero, Nat.zero_add] at bound

/-- A year's grant, in blocks and units that fit. -/
theorem createSchedule_vestsExactly_grant :
    (VestingRegistry.new.createSchedule [1] 1000000 100 50 500000 0).2.VestsExactly
      (VestingRegistry.new.createSchedule [1] 1000000 100 50 500000 0).1 1000000 100 50 500000 :=
  (createSchedule_vestsExactly_iff VestingRegistry.new [1] 1000000 100 50 500000 0 (by decide)).mpr
    (by decide)

/-- 2^33 blocks for 2^33 - 1 units: the product overflows one block before the end. -/
theorem createSchedule_not_exact :
    ¬ ∀ (registry : VestingRegistry) (beneficiary : Bytes)
      (total start cliff duration grantId : UInt64),
      (registry.createSchedule beneficiary total start cliff duration grantId).1 ≠ 0 →
        (registry.createSchedule beneficiary total start cliff duration grantId).2.VestsExactly
          (registry.createSchedule beneficiary total start cliff duration grantId).1
          total.toNat start.toNat cliff.toNat duration.toNat := by
  intro always
  have exact_ := (always VestingRegistry.new [1] 8589934591 0 0 8589934592 0 (by decide)).exact
    8589934591
  revert exact_
  decide +kernel

end VestingRegistry

end Parthenon.Governance
