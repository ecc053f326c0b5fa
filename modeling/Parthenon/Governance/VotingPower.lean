import Parthenon.Library.ByteCodec
import Parthenon.Library.OrderedMap
import Parthenon.Library.Rounding

namespace Parthenon.Governance

open Library Std

/-! # Voting power

The registries a voting system may have attached: token balances, the stakes that
came before them, the snapshots of a proposal's voters, and the whale guard.
-/

/-- The addresses that hold tokens.  A map cannot hold 2^64 entries. -/
structure BalanceVotingRegistry where
  balances : ExtTreeMap Bytes UInt64 compare
  held : ∀ (address : Bytes) (amount : UInt64), balances[address]? = some amount →
    address ≠ [] ∧ 0 < amount
  fits : balances.size < 2 ^ 64

namespace BalanceVotingRegistry

def empty : BalanceVotingRegistry := ⟨∅, fun _ _ found => absurd found not_found_empty, by decide⟩

/-- Only addresses with tokens are recorded.  `none` when the map cannot grow. -/
def setBalances (balances : ExtTreeMap Bytes UInt64 compare) : Option BalanceVotingRegistry :=
  let holders := balances.filter fun address amount => !address.isEmpty && 0 < amount
  if fits : holders.size < 2 ^ 64 then
    some ⟨holders, fun address amount found => by
      rw [ExtTreeMap.getElem?_filter', Option.filter_eq_some_iff] at found
      simpa using found.2, fits⟩
  else none

/-- An amount of zero removes the address.  `none` when the map cannot grow. -/
def updateBalance (registry : BalanceVotingRegistry) (address : Bytes) (amount : UInt64) :
    Option BalanceVotingRegistry :=
  if given : address = [] then some registry
  else if zero : amount = 0 then
    some ⟨registry.balances.erase address, fun other kept found => by
      rw [getElem?_erase_eq] at found
      split at found
      · cases found
      · exact registry.held other kept found,
      Nat.lt_of_le_of_lt ExtTreeMap.size_erase_le registry.fits⟩
  else if fits : (registry.balances.insert address amount).size < 2 ^ 64 then
    some ⟨registry.balances.insert address amount, fun other kept found => by
      rw [getElem?_insert_eq] at found
      split at found
      · rename_i same
        cases found
        exact ⟨same ▸ given, UInt64.pos_iff_ne_zero.mpr zero⟩
      · exact registry.held other kept found, fits⟩
  else none

def getVotingPower (registry : BalanceVotingRegistry) (address : Bytes) : UInt64 :=
  if registry.balances.contains address then 1 else 0

/-- Every holder has the power one. -/
def getAllVotingPowers (registry : BalanceVotingRegistry) : List (Bytes × UInt64) :=
  registry.balances.toList.map fun entry => (entry.1, 1)

end BalanceVotingRegistry

structure StakeRecord where
  address : Bytes
  stakedAmount : UInt64
  lockedUntilBlock : UInt64
  stakedAtBlock : UInt64
  pendingUnstake : UInt64
deriving DecidableEq, Repr

/-- Staking is disabled, so nothing adds a record. -/
structure StakingRegistry where
  stakes : ExtTreeMap Bytes StakeRecord compare

namespace StakingRegistry

def getVotingPower (registry : StakingRegistry) (address : Bytes) : UInt64 :=
  match registry.stakes[address]? with
  | none => 0
  | some rec_ => rec_.stakedAmount - rec_.pendingUnstake

def getAllVotingPowers (registry : StakingRegistry) : List (Bytes × UInt64) :=
  registry.stakes.toList.filterMap fun entry =>
    let power := registry.getVotingPower entry.1
    if power > 0 then some (entry.1, power) else none

end StakingRegistry

structure SnapshotEntry where
  address : Bytes
  votingPower : UInt64
deriving DecidableEq, Repr

structure Snapshot where
  proposalId : UInt64
  blockHeight : UInt64
  totalPower : UInt64
  entries : List SnapshotEntry
deriving DecidableEq, Repr

structure SnapshotRegistry where
  snapshots : ExtTreeMap UInt64 Snapshot compare

namespace SnapshotRegistry

/-- The entries of a snapshot.  Powers of zero are left out. -/
def entriesOf (powers : List (Bytes × UInt64)) : List SnapshotEntry :=
  powers.filterMap fun power => if power.2 = 0 then none else some ⟨power.1, power.2⟩

/-- A snapshot that is there is never replaced. -/
def createSnapshot (registry : SnapshotRegistry) (proposalId blockHeight : UInt64)
    (powers : List (Bytes × UInt64)) : Bool × SnapshotRegistry :=
  if registry.snapshots.contains proposalId then (false, registry)
  else
    let entries := entriesOf powers
    let totalPower := entries.foldl (fun total entry => total + entry.votingPower) 0
    (true, ⟨registry.snapshots.insert proposalId ⟨proposalId, blockHeight, totalPower, entries⟩⟩)

def getSnapshotPower (registry : SnapshotRegistry) (proposalId : UInt64) (address : Bytes) : UInt64 :=
  match registry.snapshots[proposalId]? with
  | none => 0
  | some snapshot =>
      match snapshot.entries.find? (·.address == address) with
      | none => 0
      | some entry => entry.votingPower

def hasSnapshot (registry : SnapshotRegistry) (proposalId : UInt64) : Bool :=
  registry.snapshots.contains proposalId

end SnapshotRegistry

structure AntiWhaleConfig where
  quadraticVotingEnabled : Bool
  maxVotingPowerCap : UInt64
  whaleThresholdBps : UInt64
deriving DecidableEq, Repr

structure AntiWhaleGuard where
  config : AntiWhaleConfig
deriving DecidableEq, Repr

namespace AntiWhaleGuard

/-- The loop of `Isqrt`.  `none` is a division by zero. -/
def isqrtLoop (n x y : UInt64) : Option UInt64 :=
  if y < x then
    if y = 0 then none else isqrtLoop n y ((y + n / y) / 2)
  else some x
termination_by x.toNat
decreasing_by exact UInt64.lt_iff_toNat_lt.mp (by assumption)

def isqrt (n : UInt64) : Option UInt64 :=
  if n = 0 then some 0 else isqrtLoop n n ((n + 1) / 2)

def computeEffectivePower (guard : AntiWhaleGuard) (rawPower : UInt64) : Option UInt64 := do
  let power ← if guard.config.quadraticVotingEnabled then isqrt rawPower else some rawPower
  if guard.config.maxVotingPowerCap > 0 ∧ power > guard.config.maxVotingPowerCap then
    some guard.config.maxVotingPowerCap
  else some power

/-! ## Voting roots

The integer square root behind quadratic voting, over words that wrap.
-/

/-- Every step of the loop is the one of Newton, at or above the root. -/
theorem isqrtLoop_isRoot {n x y : UInt64} (fits : n.toNat + 1 < 2 ^ 64) (some_ : 0 < n.toNat)
    (positive : 0 < x.toNat) (le : x.toNat ≤ n.toNat) (above : n.toNat < (x.toNat + 1) ^ 2)
    (isStep : y.toNat = newtonStep n.toNat x.toNat) :
    ∃ root, isqrtLoop n x y = some root ∧ IsRoot n.toNat root.toNat := by
  fun_induction isqrtLoop n x y with
  | case1 x descends =>
      have nonzero := newtonStep_pos some_ positive
      rw [← isStep, UInt64.toNat_zero] at nonzero
      omega
  | case2 x y descends nonzero ih =>
      have lower := UInt64.lt_iff_toNat_lt.mp descends
      have yPositive : 0 < y.toNat := isStep ▸ newtonStep_pos some_ positive
      have yLe : y.toNat ≤ n.toNat := by omega
      have sum := add_div_le yPositive yLe
      apply ih yPositive yLe (isStep ▸ lt_newtonStep_succ_sq positive)
      have two : (2 : UInt64).toNat = 2 := rfl
      rw [UInt64.toNat_div, UInt64.toNat_add, UInt64.toNat_div, Nat.mod_eq_of_lt (by omega), two,
        newtonStep]
  | case3 x y stops =>
      have reached := Nat.not_lt.mp (mt UInt64.lt_iff_toNat_lt.mpr stops)
      rw [isStep] at reached
      exact ⟨x, rfl, sq_le_of_le_newtonStep positive reached, above⟩

/-- The first sum wraps to zero, by which the loop divides. -/
theorem isqrt_largest : isqrt 0xFFFFFFFFFFFFFFFF = none := by
  have wraps : ((0xFFFFFFFFFFFFFFFF : UInt64) + 1) / 2 = 0 := by decide
  rw [isqrt, if_neg (by decide), wraps, isqrtLoop, if_pos (by decide), if_pos rfl]

/-- The root is right for every word but the largest. -/
theorem isqrt_isRoot_iff (n : UInt64) :
    (∃ root, isqrt n = some root ∧ IsRoot n.toNat root.toNat) ↔ n ≠ 0xFFFFFFFFFFFFFFFF := by
  constructor
  · rintro ⟨root, isRoot, -⟩ rfl
    rw [isqrt_largest] at isRoot
    cases isRoot
  · intro smaller
    have bound := n.toNat_lt
    have notLargest : n.toNat ≠ 0xFFFFFFFFFFFFFFFF := fun same => smaller (UInt64.toNat_inj.mp same)
    rw [isqrt]
    split
    · rename_i zero
      exact ⟨0, rfl, by rw [zero]; decide⟩
    · rename_i nonzero
      have some_ : 0 < n.toNat := by
        rw [Nat.pos_iff_ne_zero, ne_eq, ← UInt64.toNat_zero, UInt64.toNat_inj]
        exact nonzero
      have fits : n.toNat + 1 < 2 ^ 64 := by omega
      apply isqrtLoop_isRoot fits some_ some_ le_rfl (by nlinarith)
      have half : ((n + 1) / 2).toNat = (n.toNat + 1) / 2 := by
        have one : (1 : UInt64).toNat = 1 := rfl
        have two : (2 : UInt64).toNat = 2 := rfl
        rw [UInt64.toNat_div, UInt64.toNat_add, one, two, Nat.mod_eq_of_lt fits]
      rw [half, newtonStep, Nat.div_self some_]

theorem isqrt_max_divides_by_zero :
    ¬ ∀ n : UInt64, ∃ root, isqrt n = some root ∧ IsRoot n.toNat root.toNat := by
  intro roots
  obtain ⟨root, isRoot, -⟩ := roots 0xFFFFFFFFFFFFFFFF
  rw [isqrt_largest] at isRoot
  cases isRoot

end AntiWhaleGuard

end Parthenon.Governance
