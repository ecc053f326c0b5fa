import Parthenon.Governance.FeeRouter
import Parthenon.Governance.TreasuryLaws

namespace Parthenon.Governance

open Library Std

/-! # Fee shares

When the amounts of a fee are its exact shares, and what the statistics and the
treasury then have.
-/

namespace FeeRouter

variable {totalFee : UInt64} {bps : UInt32} {cfg : SplitConfig}

/-- The product fits in 64 bits, or the part of the fee below ten thousand has no share. -/
def Scales (totalFee : UInt64) (bps : UInt32) : Prop :=
  totalFee.toNat * bps.toNat < 2 ^ 64 ∨ totalFee.toNat % 10000 * bps.toNat < 10000

instance (totalFee : UInt64) (bps : UInt32) : Decidable (Scales totalFee bps) :=
  inferInstanceAs (Decidable (_ ∨ _))

/-- The test of the source is whether the product fits. -/
theorem multiplies_first_iff :
    (bps = 0 ∨ totalFee ≤ 0xffffffffffffffff / bps.toUInt64) ↔
      totalFee.toNat * bps.toNat < 2 ^ 64 := by
  by_cases zero : bps = 0
  · subst zero
    simp
  · have positive : 0 < bps.toNat := by
      have differs : bps.toNat ≠ 0 := fun isZero => zero (UInt32.toNat.inj isZero)
      omega
    simp only [zero, false_or, UInt64.le_iff_toNat_le, UInt64.toNat_div, UInt32.toNat_toUInt64]
    rw [Nat.le_div_iff_mul_le positive]
    change _ ≤ 0xffffffffffffffff ↔ _
    omega

theorem scaled_parts (fee part : Nat) :
    fee * part / 10000 = fee / 10000 * part + fee % 10000 * part / 10000 := by
  have whole : fee * part = fee % 10000 * part + 10000 * (fee / 10000 * part) := by
    rw [← Nat.mul_assoc, ← Nat.add_mul, Nat.mod_add_div]
  rw [whole, Nat.add_mul_div_left _ _ (by omega), Nat.add_comm]

theorem share_exact_iff (totalFee : UInt64) (bps : UInt32) :
    (share totalFee bps).toNat = totalFee.toNat * bps.toNat / 10000 ↔
      Scales totalFee bps ∧ totalFee.toNat * bps.toNat / 10000 < 2 ^ 64 := by
  unfold share Scales
  by_cases fits : totalFee.toNat * bps.toNat < 2 ^ 64
  · rw [if_pos (multiplies_first_iff.mpr fits), UInt64.toNat_div, UInt64.toNat_mul,
      UInt32.toNat_toUInt64, Nat.mod_eq_of_lt fits]
    change _ / 10000 = _ ↔ _
    omega
  · rw [if_neg (mt multiplies_first_iff.mp fits), UInt64.toNat_mul, UInt64.toNat_div,
      UInt32.toNat_toUInt64, scaled_parts]
    change totalFee.toNat / 10000 * bps.toNat % 2 ^ 64 = _ ↔ _
    have rounded : totalFee.toNat % 10000 * bps.toNat / 10000 = 0 ↔
        totalFee.toNat % 10000 * bps.toNat < 10000 := by
      rw [Nat.div_eq_zero_iff]
      omega
    rw [← rounded]
    omega

end FeeRouter

/-- The amounts of a fee as the basis points say, with nothing lost. -/
structure RouteResult.Exact (result : RouteResult) (cfg : SplitConfig) : Prop where
  whole : result.producerAmount.toNat + result.treasuryAmount.toNat + result.burnAmount.toNat =
    result.totalFee.toNat
  within : result.producerAmount ≤ result.totalFee ∧ result.treasuryAmount ≤ result.totalFee ∧
    result.burnAmount ≤ result.totalFee
  producer : result.producerAmount.toNat = result.totalFee.toNat * cfg.producerBps.toNat / 10000
  treasury : result.treasuryAmount.toNat = result.totalFee.toNat * cfg.treasuryBps.toNat / 10000

/-- Both shares scale, and together they are within the fee. -/
def SplitConfig.Divides (cfg : SplitConfig) (totalFee : UInt64) : Prop :=
  FeeRouter.Scales totalFee cfg.producerBps ∧ FeeRouter.Scales totalFee cfg.treasuryBps ∧
    totalFee.toNat * cfg.producerBps.toNat / 10000 +
      totalFee.toNat * cfg.treasuryBps.toNat / 10000 ≤ totalFee.toNat

instance (cfg : SplitConfig) (totalFee : UInt64) : Decidable (cfg.Divides totalFee) :=
  inferInstanceAs (Decidable (_ ∧ _))

namespace FeeRouter

theorem split_exact_iff (cfg : SplitConfig) (source : FeeSource) (totalFee : UInt64)
    (deposited : Bool) :
    (split cfg source totalFee deposited).Exact cfg ↔ cfg.Divides totalFee := by
  have small := totalFee.toNat_lt
  have producerIff := share_exact_iff totalFee cfg.producerBps
  have treasuryIff := share_exact_iff totalFee cfg.treasuryBps
  constructor
  · rintro ⟨whole, -, producer, treasury⟩
    dsimp only [split] at whole producer treasury
    refine ⟨(producerIff.mp producer).1, (treasuryIff.mp treasury).1, ?_⟩
    omega
  · rintro ⟨producerScales, treasuryScales, within⟩
    have producer := producerIff.mpr ⟨producerScales, by omega⟩
    have treasury := treasuryIff.mpr ⟨treasuryScales, by omega⟩
    have producerLe : share totalFee cfg.producerBps ≤ totalFee := by
      rw [UInt64.le_iff_toNat_le]
      omega
    have rest := toNat_sub_of_le producerLe
    have treasuryLe : share totalFee cfg.treasuryBps ≤
        totalFee - share totalFee cfg.producerBps := by
      rw [UInt64.le_iff_toNat_le]
      omega
    have burn := toNat_sub_of_le treasuryLe
    refine ⟨?_, ⟨?_, ?_, ?_⟩, producer, treasury⟩
    · dsimp only [split]
      omega
    all_goals
      dsimp only [split]
      rw [UInt64.le_iff_toNat_le]
      omega

theorem divides_of_isValid {cfg : SplitConfig} {totalFee : UInt64} (valid : cfg.isValid = true)
    (producer : Scales totalFee cfg.producerBps) (treasury : Scales totalFee cfg.treasuryBps) :
    cfg.Divides totalFee := by
  refine ⟨producer, treasury, ?_⟩
  have producerSmall := cfg.producerBps.toNat_lt
  have treasurySmall := cfg.treasuryBps.toNat_lt
  have burnSmall := cfg.burnBps.toNat_lt
  have sums := congrArg UInt64.toNat (beq_iff_eq.mp valid)
  rw [UInt64.toNat_add, UInt64.toNat_add, UInt32.toNat_toUInt64, UInt32.toNat_toUInt64,
    UInt32.toNat_toUInt64] at sums
  change _ = 10000 at sums
  have within : cfg.producerBps.toNat + cfg.treasuryBps.toNat ≤ 10000 := by omega
  calc totalFee.toNat * cfg.producerBps.toNat / 10000 +
        totalFee.toNat * cfg.treasuryBps.toNat / 10000
      ≤ (totalFee.toNat * cfg.producerBps.toNat + totalFee.toNat * cfg.treasuryBps.toNat) / 10000 := by
        omega
    _ = totalFee.toNat * (cfg.producerBps.toNat + cfg.treasuryBps.toNat) / 10000 := by
        rw [Nat.mul_add]
    _ ≤ totalFee.toNat * 10000 / 10000 :=
        Nat.div_le_div_right (Nat.mul_le_mul_left _ within)
    _ = totalFee.toNat := Nat.mul_div_cancel _ (by omega)

end FeeRouter

/-! ## Ledgers -/

/-- A call of a fee router. -/
inductive FeeCall
  | setSplitConfig (source : FeeSource) (cfg : SplitConfig)
  | route (source : FeeSource) (totalFee : UInt64) (producerAddress : Bytes) (blockHeight : UInt64)

/-- A fee router with every result so far and the configuration it was split by. -/
structure RoutedFees where
  router : FeeRouter
  results : List (SplitConfig × RouteResult)

namespace RoutedFees

variable (start : FeeRouter) (routed : RoutedFees)

def after : FeeCall → RoutedFees
  | .setSplitConfig source cfg => { routed with router := routed.router.setSplitConfig source cfg }
  | .route source totalFee producerAddress blockHeight =>
      let (result, router) := routed.router.route source totalFee producerAddress blockHeight
      ⟨router, routed.results ++ [(routed.router.configs source, result)]⟩

/-- The exact sum of the fees. -/
def fees : Nat := (routed.results.map fun entry => entry.2.totalFee.toNat).sum

/-- The exact sum of one amount over the results of one source. -/
def tallied (amount : RouteResult → UInt64) (source : FeeSource) : Nat :=
  (routed.results.map fun entry => if entry.2.source = source then (amount entry.2).toNat else 0).sum

/-- The exact sum of the treasury amounts that a track was sent. -/
def received (track : Track) : Nat :=
  (routed.results.map fun entry =>
    if entry.1.treasuryTrack = track then entry.2.treasuryAmount.toNat else 0).sum

/-- The statistics of a source are the sums of its results. -/
structure Tallied (source : FeeSource) : Prop where
  fees : (routed.router.stats source).totalFeesRouted.toNat = routed.tallied (·.totalFee) source
  producer : (routed.router.stats source).totalToProducer.toNat =
    routed.tallied (·.producerAmount) source
  treasury : (routed.router.stats source).totalToTreasury.toNat =
    routed.tallied (·.treasuryAmount) source
  burned : (routed.router.stats source).totalBurned.toNat = routed.tallied (·.burnAmount) source

/-- The treasury that was attached has received its amounts, and nothing else happened to
its balances. -/
def Received : Prop :=
  ∀ treasury ∈ start.treasury, ∃ now, routed.router.treasury = some now ∧
    ∀ track, (now.balances track).toNat = (treasury.balances track).toNat + routed.received track

/-- Every fee was divided exactly, and the ledgers agree as long as the fees fit. -/
structure Settled : Prop where
  exact_ : ∀ entry ∈ routed.results, entry.2.Exact entry.1
  tallied : routed.fees < 2 ^ 64 → ∀ source, routed.Tallied source
  received : routed.fees < 2 ^ 64 → routed.Received start

/-- A fee is divided exactly, and the balance of its track has room for the share. -/
def Orderly : FeeCall → Prop
  | .setSplitConfig _ _ => True
  | .route source totalFee _ _ =>
      (routed.router.configs source).Divides totalFee ∧
        ∀ treasury ∈ routed.router.treasury, routed.fees + totalFee.toNat < 2 ^ 64 →
          (treasury.balances (routed.router.configs source).treasuryTrack).toNat +
            totalFee.toNat * (routed.router.configs source).treasuryBps.toNat / 10000 < 2 ^ 64

instance : ∀ call, Decidable (routed.Orderly call)
  | .setSplitConfig _ _ => inferInstanceAs (Decidable True)
  | .route .. => inferInstanceAs (Decidable (_ ∧ ∀ treasury ∈ _, _))

def OrderlyStep (routed : RoutedFees) (call : FeeCall) (next : RoutedFees) : Prop :=
  routed.Orderly call ∧ next = routed.after call

section Steps

variable {routed next : RoutedFees} {entry : SplitConfig × RouteResult}

theorem fees_of_append (appended : next.results = routed.results ++ [entry]) :
    next.fees = routed.fees + entry.2.totalFee.toNat := by
  simp [fees, appended]

theorem tallied_of_append (appended : next.results = routed.results ++ [entry])
    (amount : RouteResult → UInt64) (source : FeeSource) :
    next.tallied amount source =
      routed.tallied amount source + if entry.2.source = source then (amount entry.2).toNat else 0 := by
  simp [tallied, appended]

theorem received_of_append (appended : next.results = routed.results ++ [entry]) (track : Track) :
    next.received track =
      routed.received track +
        if entry.1.treasuryTrack = track then entry.2.treasuryAmount.toNat else 0 := by
  simp [received, appended]

/-- Amounts within their fees add up to no more than the fees. -/
theorem tallied_le_fees {amount : RouteResult → UInt64} (source : FeeSource)
    (within : ∀ entry ∈ routed.results, amount entry.2 ≤ entry.2.totalFee) :
    routed.tallied amount source ≤ routed.fees := by
  apply List.sum_le_sum
  intro entry listed
  split
  · exact UInt64.le_iff_toNat_le.mp (within entry listed)
  · exact Nat.zero_le _

/-- A counter that is the sum of the results of a source stays it. -/
theorem counter_of_append (appended : next.results = routed.results ++ [entry])
    (fits : next.fees < 2 ^ 64) {amount : RouteResult → UInt64}
    (within : ∀ entry ∈ next.results, amount entry.2 ≤ entry.2.totalFee) {counter : UInt64}
    (counted : counter.toNat = routed.tallied amount entry.2.source) :
    (counter + amount entry.2).toNat = next.tallied amount entry.2.source := by
  have sums := tallied_of_append appended amount entry.2.source
  rw [if_pos rfl] at sums
  have bound := tallied_le_fees entry.2.source within
  rw [toNat_add_of_fits (by omega), counted, sums]

theorem tallied_of_route (appended : next.results = routed.results ++ [entry])
    (stats : next.router.stats =
      Function.update routed.router.stats entry.2.source
        ((routed.router.stats entry.2.source).add entry.2))
    (exact_ : ∀ entry ∈ next.results, entry.2.Exact entry.1) (fits : next.fees < 2 ^ 64)
    (before : ∀ source, routed.Tallied source) (source : FeeSource) : next.Tallied source := by
  by_cases same : source = entry.2.source
  · subst same
    obtain ⟨fees, producer, treasury, burned⟩ := before entry.2.source
    constructor
    all_goals rw [stats, Function.update_self]
    · exact counter_of_append appended fits (fun _ _ => UInt64.le_refl _) fees
    · exact counter_of_append appended fits (fun _ listed => (exact_ _ listed).within.1) producer
    · exact counter_of_append appended fits (fun _ listed => (exact_ _ listed).within.2.1) treasury
    · exact counter_of_append appended fits (fun _ listed => (exact_ _ listed).within.2.2) burned
  · obtain ⟨fees, producer, treasury, burned⟩ := before source
    constructor
    all_goals
      rw [stats, Function.update_of_ne same, tallied_of_append appended, if_neg (Ne.symm same),
        Nat.add_zero]
      assumption

end Steps

end RoutedFees

namespace FeeRouter

variable {router : FeeRouter} {treasury : Treasury}

/-- A share of zero would be refused by the treasury as well. -/
theorem depositShare_attached (attached : router.treasury = some treasury) (amount : UInt64)
    (producerAddress : Bytes) (track : Track) (blockHeight : UInt64) :
    (router.depositShare amount producerAddress track blockHeight).2 =
      some (treasury.deposit amount producerAddress track blockHeight).2 := by
  unfold depositShare
  rw [attached]
  by_cases zero : amount = 0
  · subst zero
    rfl
  · have positive : amount > 0 := UInt64.pos_iff_ne_zero.mpr zero
    dsimp only
    rw [if_pos positive]

/-- The balances after a share was deposited, when it fits. -/
theorem depositShare_balances (attached : router.treasury = some treasury) {amount : UInt64}
    {track : Track} (fits : (treasury.balances track).toNat + amount.toNat < 2 ^ 64)
    (producerAddress : Bytes) (blockHeight : UInt64) :
    ∃ now, (router.depositShare amount producerAddress track blockHeight).2 = some now ∧
      ∀ other, (now.balances other).toNat =
        (treasury.balances other).toNat + if track = other then amount.toNat else 0 := by
  refine ⟨_, depositShare_attached attached amount producerAddress track blockHeight, ?_⟩
  intro other
  rcases treasury.deposit_cases amount producerAddress track blockHeight with
    ⟨zero, refused⟩ | ⟨-, done⟩
  · rw [refused, zero]
    simp
  · rw [done]
    by_cases same : track = other
    · subst same
      simp only [Treasury.recordTx, Treasury.setBalance, Function.update_self, if_true]
      exact toNat_add_of_fits fits
    · simp only [Treasury.recordTx, Treasury.setBalance, Function.update_of_ne (Ne.symm same),
        if_neg same, Nat.add_zero]

end FeeRouter

namespace RoutedFees

variable {start : FeeRouter} {routed : RoutedFees}

theorem route_settled {source : FeeSource} {totalFee : UInt64} {producerAddress : Bytes}
    {blockHeight : UInt64}
    (orderly : routed.Orderly (.route source totalFee producerAddress blockHeight))
    (settled : routed.Settled start) :
    (routed.after (.route source totalFee producerAddress blockHeight)).Settled start := by
  obtain ⟨divides, room⟩ := orderly
  have exactNow := (FeeRouter.split_exact_iff (routed.router.configs source) source totalFee
    (routed.router.route source totalFee producerAddress blockHeight).1.treasuryDeposited).mpr divides
  have appended : (routed.after (.route source totalFee producerAddress blockHeight)).results =
      routed.results ++ [(routed.router.configs source,
        (routed.router.route source totalFee producerAddress blockHeight).1)] := rfl
  have exact_ : ∀ entry ∈ (routed.after (.route source totalFee producerAddress blockHeight)).results,
      entry.2.Exact entry.1 := by
    intro entry listed
    rw [appended] at listed
    rcases List.mem_append.mp listed with earlier | now
    · exact settled.exact_ entry earlier
    · rw [List.mem_singleton.mp now]
      exact exactNow
  have grown := fees_of_append appended
  change _ = routed.fees + totalFee.toNat at grown
  refine ⟨exact_, ?_, ?_⟩
  · intro fits
    exact tallied_of_route appended rfl exact_ fits (settled.tallied (by omega))
  · intro fits treasury attached
    obtain ⟨now, isNow, balances⟩ := settled.received (by omega) treasury attached
    have share : (FeeRouter.share totalFee (routed.router.configs source).treasuryBps).toNat =
        totalFee.toNat * (routed.router.configs source).treasuryBps.toNat / 10000 :=
      exactNow.treasury
    have fitsNow := room now isNow (by omega)
    rw [← share] at fitsNow
    obtain ⟨later, isLater, grownBalances⟩ :=
      FeeRouter.depositShare_balances isNow fitsNow producerAddress blockHeight
    refine ⟨later, isLater, ?_⟩
    intro track
    rw [grownBalances, balances, received_of_append appended, Nat.add_assoc]
    rfl

theorem orderly_settled {call : FeeCall} (orderly : routed.Orderly call)
    (settled : routed.Settled start) : (routed.after call).Settled start := by
  cases call with
  | setSplitConfig source cfg =>
      refine ⟨settled.exact_, ?_, settled.received⟩
      intro fits source
      obtain ⟨fees, producer, treasury, burned⟩ := settled.tallied fits source
      exact ⟨fees, producer, treasury, burned⟩
  | route => exact route_settled orderly settled

/-- The sums of all sources are the sums of all results. -/
theorem tallied_all (amount : RouteResult → UInt64) :
    (FeeSource.all.map fun source => routed.tallied amount source).sum =
      (routed.results.map fun entry => (amount entry.2).toNat).sum := by
  obtain ⟨router, results⟩ := routed
  simp only [tallied]
  induction results with
  | nil => rfl
  | cons entry rest ih =>
      rw [List.map_cons, List.sum_cons, ← ih]
      cases source : entry.2.source <;> simp [FeeSource.all, source] <;> omega

theorem Settled.getTotalStats_fees (settled : routed.Settled start) (fits : routed.fees < 2 ^ 64) :
    routed.router.getTotalStats.totalFeesRouted.toNat = routed.fees := by
  have counters : ∀ source, (routed.router.stats source).totalFeesRouted.toNat =
      routed.tallied (·.totalFee) source := fun source => (settled.tallied fits source).fees
  have sums : (FeeSource.all.map fun source => routed.tallied (·.totalFee) source).sum =
    routed.fees := tallied_all (·.totalFee)
  simp only [FeeSource.all, List.map_cons, List.map_nil, List.sum_cons, List.sum_nil] at sums
  simp only [FeeRouter.getTotalStats, FeeSource.all, List.foldl_cons, List.foldl_nil,
    UInt64.toNat_add, counters]
  simp only [UInt64.toNat_zero]
  omega

/-- In a run of fees that are divided exactly, nothing is lost and the ledgers agree. -/
theorem orderly_run_settled {treasury : Option Treasury} {eventLog : Option GovernanceEventLog}
    {calls : List FeeCall} {routed : RoutedFees}
    (run : Run OrderlyStep ⟨.new treasury eventLog, []⟩ calls routed) :
    routed.Settled (.new treasury eventLog) := by
  apply run.invariant (motive := fun routed => routed.Settled (.new treasury eventLog))
  · refine ⟨nofun, ?_, ?_⟩
    · intro _ source
      exact ⟨rfl, rfl, rfl, rfl⟩
    · intro _ treasury attached
      exact ⟨treasury, attached, fun _ => rfl⟩
  · rintro routed call _ settled ⟨orderly, rfl⟩
    exact orderly_settled orderly settled

/-- The whole of a large fee loses the share of its last thousands. -/
theorem run_not_settled :
    ¬ ∀ (treasury : Option Treasury) (eventLog : Option GovernanceEventLog) (calls : List FeeCall),
      (calls.foldl after ⟨.new treasury eventLog, []⟩).Settled (.new treasury eventLog) := by
  intro claim
  have settled := claim none none [.route .bridgeFee 0xffffffffffffffff [1] 0]
  have exact_ := settled.exact_ (FeeSource.bridgeFee.defaultConfig,
    FeeRouter.split FeeSource.bridgeFee.defaultConfig .bridgeFee 0xffffffffffffffff false)
    List.mem_cons_self
  have treasury := exact_.treasury
  revert treasury
  decide +kernel

/-- Fees of two sources, with a configuration changed between them. -/
def feeRun : List FeeCall :=
  [.route .l1Utxo 1001 [1] 0, .setSplitConfig .l1Utxo ⟨5000, 5000, 0, .grants⟩,
   .route .l1Utxo 7 [1] 1, .route .bridgeFee 30 [2] 2]

theorem orderly_run_settled_fees :
    (feeRun.foldl after ⟨.new (some (.new 2 1000)) none, []⟩).Settled
      (.new (some (.new 2 1000)) none) := by
  have run : Run OrderlyStep ⟨.new (some (.new 2 1000)) none, []⟩ feeRun
      (feeRun.foldl after ⟨.new (some (.new 2 1000)) none, []⟩) :=
    Run.start.extend (show Obeys Orderly _ _ _ by decide +kernel)
  exact orderly_run_settled run

end RoutedFees

end Parthenon.Governance
