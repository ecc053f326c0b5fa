import Parthenon.Governance.TreasuryLaws
import Parthenon.Library.Runs

namespace Parthenon.Governance

open Library

/-! # Budget periods

Periods may overlap.  A spend is checked against the first one that covers its height and
charged to it, and the others do not learn of it.
-/

/-- A call that a budget is about. -/
inductive BudgetCall
  | createBudgetPeriod (startBlock endBlock : UInt64) (limits : Track → UInt64)
      (proposalId : UInt64)
  | spend (amount : UInt64) (recipient : Bytes) (proposalId : UInt64) (track : Track)
      (purpose : String) (blockHeight : UInt64)

/-- A period as it was created, with the exact amounts spent at its heights since. -/
structure CreatedPeriod where
  period : BudgetPeriod
  spent : Track → Nat

namespace CreatedPeriod

/-- A successful spend counts for a period that covers its height. -/
def count (created : CreatedPeriod) (track : Track) (amount blockHeight : UInt64) : CreatedPeriod :=
  if created.period.covers blockHeight then
    { created with
      spent := Function.update created.spent track (created.spent track + amount.toNat) }
  else created

def Respected (created : CreatedPeriod) : Prop :=
  ∀ track, created.period.trackLimits track ≠ 0 →
    created.spent track ≤ (created.period.trackLimits track).toNat

end CreatedPeriod

/-- A treasury with the periods that were created since the run began. -/
structure Budgets where
  treasury : Treasury
  created : List CreatedPeriod

namespace Budgets

def opened (treasury : Treasury) : Budgets := ⟨treasury, []⟩

variable (budgets : Budgets)

def after : BudgetCall → Budgets
  | .createBudgetPeriod startBlock endBlock limits proposalId =>
      let (_, treasury) :=
        budgets.treasury.createBudgetPeriod startBlock endBlock limits proposalId
      let added := treasury.budgetPeriods.drop budgets.treasury.budgetPeriods.length
      { treasury, created := budgets.created ++ added.map fun period => ⟨period, fun _ => 0⟩ }
  | .spend amount recipient proposalId track purpose blockHeight =>
      let (done, treasury) :=
        budgets.treasury.spend amount recipient proposalId track purpose blockHeight
      { treasury
        created :=
          if done then budgets.created.map (·.count track amount blockHeight) else budgets.created }

/-- Every period that was created has its limits kept. -/
def Respected : Prop := ∀ created ∈ budgets.created, created.Respected

/-- What a spend has to pass. -/
def Admits (amount proposalId : UInt64) (track : Track) (blockHeight : UInt64) : Prop :=
  proposalId ≠ 0 ∧ amount ≠ 0 ∧ track ≠ .emergency ∧ amount ≤ budgets.treasury.balances track ∧
    budgets.treasury.isWithinBudget track amount blockHeight = true ∧
    budgets.treasury.violatesReserve amount = false

instance (amount proposalId : UInt64) (track : Track) (blockHeight : UInt64) :
    Decidable (budgets.Admits amount proposalId track blockHeight) := inferInstanceAs (Decidable (_ ∧ _))

/-- A spend that passes is made at a height where no period but the first has a limit for its
track. -/
def OneLimit : BudgetCall → Prop
  | .createBudgetPeriod .. => True
  | .spend amount _ proposalId track _ blockHeight =>
      budgets.Admits amount proposalId track blockHeight →
        ∀ bp ∈ (budgets.treasury.budgetPeriods.filter (·.covers blockHeight)).tail,
          bp.trackLimits track = 0

instance : ∀ call, Decidable (budgets.OneLimit call)
  | .createBudgetPeriod .. => inferInstanceAs (Decidable True)
  | .spend .. => inferInstanceAs (Decidable (_ → _))

/-! ## What the records know -/

/-- The record of a period has all that was spent at its heights, on each track that it
limits, and all of that was there when the run began. -/
structure Records (funds balances : Track → UInt64) (bp : BudgetPeriod) (created : CreatedPeriod) :
    Prop where
  covers : ∀ blockHeight, created.period.covers blockHeight = bp.covers blockHeight
  limits : created.period.trackLimits = bp.trackLimits
  spent : ∀ track, bp.trackLimits track ≠ 0 → (bp.trackSpent track).toNat = created.spent track
  respected : ∀ track, bp.trackLimits track ≠ 0 →
    created.spent track ≤ (bp.trackLimits track).toNat
  funded : ∀ track, created.spent track + (balances track).toNat ≤ (funds track).toNat

/-- The last periods of the treasury are those that were created in the run. -/
structure Kept (funds : Track → UInt64) : Prop where
  funded : ∀ track, budgets.treasury.balances track ≤ funds track
  records : ∃ earlier since, budgets.treasury.budgetPeriods = earlier ++ since ∧
    List.Forall₂ (Records funds budgets.treasury.balances) since budgets.created

theorem Records.respects {funds balances : Track → UInt64} {bp : BudgetPeriod}
    {created : CreatedPeriod} (record : Records funds balances bp created) : created.Respected := by
  intro track limited
  rw [record.limits] at limited ⊢
  exact record.respected track limited

/-- A period is created with nothing spent. -/
theorem Records.fresh {funds balances : Track → UInt64} (funded : ∀ track, balances track ≤ funds track)
    (bp : BudgetPeriod) (unspent : ∀ track, bp.trackSpent track = 0) :
    Records funds balances bp ⟨bp, fun _ => 0⟩ where
  covers _ := rfl
  limits := rfl
  spent track _ := by rw [unspent, UInt64.toNat_zero]
  respected _ _ := Nat.zero_le _
  funded track := by
    rw [Nat.zero_add]
    exact UInt64.le_iff_toNat_le.mp (funded track)

theorem respects_all {funds balances : Track → UInt64} {since : List BudgetPeriod}
    {all : List CreatedPeriod} (records : List.Forall₂ (Records funds balances) since all) :
    ∀ created ∈ all, created.Respected := by
  induction records with
  | nil => exact List.forall_mem_nil _
  | cons record _ ih => exact List.forall_mem_cons.mpr ⟨record.respects, ih⟩

theorem Kept.respected {budgets : Budgets} {funds : Track → UInt64} (kept : budgets.Kept funds) :
    budgets.Respected := by
  obtain ⟨_, _, -, records⟩ := kept.records
  exact respects_all records

section Spend

variable {funds balances : Track → UInt64} {bp : BudgetPeriod} {created : CreatedPeriod}
  {track : Track} {amount blockHeight : UInt64}

/-- What a spend leaves of the balances. -/
def spentFrom (balances : Track → UInt64) (track : Track) (amount : UInt64) : Track → UInt64 :=
  Function.update balances track (balances track - amount)

theorem spentFrom_le (covered : amount ≤ balances track) (other : Track) :
    spentFrom balances track amount other ≤ balances other := by
  unfold spentFrom
  by_cases same : other = track
  · subst same
    rw [Function.update_self, UInt64.le_iff_toNat_le, toNat_sub_of_le covered]
    exact Nat.sub_le _ _
  · rw [Function.update_of_ne same]
    exact UInt64.le_refl _

/-- What is added to a count is taken from the balance. -/
theorem count_funded (record : Records funds balances bp created)
    (covered : amount ≤ balances track) (other : Track) :
    (created.count track amount blockHeight).spent other +
      (spentFrom balances track amount other).toNat ≤ (funds other).toNat := by
  have before := record.funded other
  unfold CreatedPeriod.count
  split
  · by_cases same : other = track
    · subst same
      have le := UInt64.le_iff_toNat_le.mp covered
      dsimp only [spentFrom]
      rw [Function.update_self, Function.update_self, toNat_sub_of_le covered]
      omega
    · dsimp only [spentFrom]
      rw [Function.update_of_ne same, Function.update_of_ne same]
      exact before
  · have le := UInt64.le_iff_toNat_le.mp (spentFrom_le covered other)
    omega

/-- A period that is not at the height, or does not limit the track, keeps its record. -/
theorem Records.idle (record : Records funds balances bp created)
    (covered : amount ≤ balances track)
    (free : bp.covers blockHeight = true → bp.trackLimits track = 0) :
    Records funds (spentFrom balances track amount) bp (created.count track amount blockHeight) := by
  have period : (created.count track amount blockHeight).period = created.period := by
    unfold CreatedPeriod.count
    split <;> rfl
  have spent : ∀ other, bp.trackLimits other ≠ 0 →
      (created.count track amount blockHeight).spent other = created.spent other := by
    intro other limited
    unfold CreatedPeriod.count
    split
    · rename_i here
      rw [record.covers] at here
      have elsewhere : other ≠ track := by
        rintro rfl
        exact limited (free here)
      exact Function.update_of_ne elsewhere _ _
    · rfl
  refine ⟨?_, ?_, ?_, ?_, count_funded record covered⟩
  · rw [period]
    exact record.covers
  · rw [period]
    exact record.limits
  · intro other limited
    rw [spent other limited]
    exact record.spent other limited
  · intro other limited
    rw [spent other limited]
    exact record.respected other limited

/-- The period that is charged has room for the amount. -/
theorem Records.charge (record : Records funds balances bp created)
    (covered : amount ≤ balances track) (here : bp.covers blockHeight = true)
    (room : bp.trackLimits track = 0 ∨ bp.trackSpent track + amount ≤ bp.trackLimits track) :
    Records funds (spentFrom balances track amount)
      { bp with trackSpent := Function.update bp.trackSpent track (bp.trackSpent track + amount) }
      (created.count track amount blockHeight) := by
  have counted : created.count track amount blockHeight = { created with
      spent := Function.update created.spent track (created.spent track + amount.toNat) } := by
    rw [CreatedPeriod.count, record.covers, if_pos here]
  have funded : ∀ other, (created.count track amount blockHeight).spent other +
      (spentFrom balances track amount other).toNat ≤ (funds other).toNat :=
    count_funded record covered
  rw [counted] at funded ⊢
  -- all of it came from the balance the run began with, so the sum does not wrap
  have sum : bp.trackLimits track ≠ 0 →
      (bp.trackSpent track + amount).toNat = created.spent track + amount.toNat := by
    intro limited
    have before := record.spent track limited
    have all := record.funded track
    have le := UInt64.le_iff_toNat_le.mp covered
    have word := (funds track).toNat_lt
    rw [toNat_add_of_fits (by omega), before]
  refine ⟨record.covers, record.limits, ?_, ?_, funded⟩
  · intro other limited
    by_cases same : other = track
    · subst same
      dsimp only
      rw [Function.update_self, Function.update_self]
      exact sum limited
    · dsimp only
      rw [Function.update_of_ne same, Function.update_of_ne same]
      exact record.spent other limited
  · intro other limited
    by_cases same : other = track
    · subst same
      dsimp only
      rw [Function.update_self, ← sum limited]
      exact UInt64.le_iff_toNat_le.mp (room.resolve_left limited)
    · dsimp only
      rw [Function.update_of_ne same]
      exact record.respected other limited

theorem idle_records {since : List BudgetPeriod} {all : List CreatedPeriod}
    (records : List.Forall₂ (Records funds balances) since all) (covered : amount ≤ balances track)
    (free : ∀ bp ∈ since.filter (·.covers blockHeight), bp.trackLimits track = 0) :
    List.Forall₂ (Records funds (spentFrom balances track amount)) since
      (all.map (·.count track amount blockHeight)) := by
  induction records with
  | nil => exact .nil
  | cons record _ ih =>
      refine .cons (record.idle covered fun here => ?_) (ih fun bp member => ?_)
      · exact free _ (List.mem_filter.mpr ⟨List.mem_cons_self, here⟩)
      · obtain ⟨listed, here⟩ := List.mem_filter.mp member
        exact free bp (List.mem_filter.mpr ⟨List.mem_cons_of_mem _ listed, here⟩)

/-- The first period at the height is charged, and the others there do not limit the track. -/
theorem charge_records {since : List BudgetPeriod} {all : List CreatedPeriod}
    (records : List.Forall₂ (Records funds balances) since all) (covered : amount ≤ balances track)
    (room : ∀ bp, since.find? (·.covers blockHeight) = some bp →
      bp.trackLimits track = 0 ∨ bp.trackSpent track + amount ≤ bp.trackLimits track)
    (free : ∀ bp ∈ (since.filter (·.covers blockHeight)).tail, bp.trackLimits track = 0) :
    List.Forall₂ (Records funds (spentFrom balances track amount))
      (Treasury.chargeBudget track amount blockHeight since)
      (all.map (·.count track amount blockHeight)) := by
  induction records with
  | nil => exact .nil
  | @cons bp created since all record records ih =>
      unfold Treasury.chargeBudget
      by_cases here : bp.covers blockHeight = true
      · have first : (bp :: since).filter (·.covers blockHeight) =
            bp :: since.filter (·.covers blockHeight) := List.filter_cons_of_pos here
        rw [first] at free
        rw [if_pos here]
        exact .cons (record.charge covered here (room bp (List.find?_cons_of_pos here)))
          (idle_records records covered free)
      · have skipped : (bp :: since).filter (·.covers blockHeight) =
            since.filter (·.covers blockHeight) := List.filter_cons_of_neg here
        have later : (bp :: since).find? (·.covers blockHeight) =
            since.find? (·.covers blockHeight) := List.find?_cons_of_neg here
        rw [skipped] at free
        rw [later] at room
        rw [if_neg here]
        exact .cons (record.idle covered fun there => absurd there here) (ih room free)

/-- A period before the others that is at the height is charged in their place. -/
theorem chargeBudget_append_of_covered {earlier : List BudgetPeriod}
    (covered : ∃ bp ∈ earlier, bp.covers blockHeight = true) (since : List BudgetPeriod) :
    Treasury.chargeBudget track amount blockHeight (earlier ++ since) =
      Treasury.chargeBudget track amount blockHeight earlier ++ since := by
  induction earlier with
  | nil => simp at covered
  | cons bp earlier ih =>
      rw [List.cons_append, Treasury.chargeBudget, Treasury.chargeBudget]
      by_cases here : bp.covers blockHeight = true
      · rw [if_pos here, if_pos here, List.cons_append]
      · rw [if_neg here, if_neg here, List.cons_append]
        congr 1
        obtain ⟨other, member, there⟩ := covered
        rcases List.mem_cons.mp member with rfl | later
        · exact absurd there here
        · exact ih ⟨other, later, there⟩

theorem chargeBudget_append_of_free {earlier : List BudgetPeriod}
    (free : ∀ bp ∈ earlier, ¬bp.covers blockHeight = true) (since : List BudgetPeriod) :
    Treasury.chargeBudget track amount blockHeight (earlier ++ since) =
      earlier ++ Treasury.chargeBudget track amount blockHeight since := by
  induction earlier with
  | nil => rfl
  | cons bp earlier ih =>
      obtain ⟨here, later⟩ := List.forall_mem_cons.mp free
      rw [List.cons_append, Treasury.chargeBudget, if_neg here, ih later, List.cons_append]

end Spend

/-! ## A run -/

theorem opened_kept (treasury : Treasury) : (opened treasury).Kept treasury.balances where
  funded _ := UInt64.le_refl _
  records := ⟨treasury.budgetPeriods, [], (List.append_nil _).symm, .nil⟩

variable {budgets} {funds : Track → UInt64}

theorem createBudgetPeriod_keeps (kept : budgets.Kept funds) (startBlock endBlock : UInt64)
    (limits : Track → UInt64) (proposalId : UInt64) :
    (budgets.after (.createBudgetPeriod startBlock endBlock limits proposalId)).Kept funds := by
  obtain ⟨earlier, since, periods, records⟩ := kept.records
  rcases budgets.treasury.createBudgetPeriod_cases startBlock endBlock limits proposalId with
    refused | done
  · simp only [after, refused]
    rw [List.drop_length, List.map_nil, List.append_nil]
    exact kept
  · simp only [after, done]
    rw [List.drop_left]
    let added : BudgetPeriod :=
      ⟨budgets.treasury.nextPeriodId, startBlock, endBlock, limits, fun _ => 0⟩
    have appended : budgets.treasury.budgetPeriods ++ [added] = earlier ++ (since ++ [added]) := by
      rw [periods, List.append_assoc]
    exact ⟨kept.funded, earlier, since ++ [added], appended,
      List.rel_append records (.cons (Records.fresh kept.funded added fun _ => rfl) .nil)⟩

theorem spend_keeps (kept : budgets.Kept funds) {amount : UInt64} {recipient : Bytes}
    {proposalId : UInt64} {track : Track} {purpose : String} {blockHeight : UInt64}
    (one : budgets.OneLimit (.spend amount recipient proposalId track purpose blockHeight)) :
    (budgets.after (.spend amount recipient proposalId track purpose blockHeight)).Kept funds := by
  obtain ⟨earlier, since, periods, records⟩ := kept.records
  rcases budgets.treasury.spend_cases amount recipient proposalId track purpose blockHeight with
    refused | ⟨authorised, paid, free, covered, within, above, done⟩
  · simp only [after, refused]
    exact kept
  simp only [after, done]
  have free := one ⟨authorised, paid, free, covered, within, above⟩
  unfold Treasury.isWithinBudget at within
  rw [periods] at free within
  rw [List.filter_append] at free
  rw [List.find?_append] at within
  refine ⟨fun other => UInt64.le_trans (spentFrom_le covered other) (kept.funded other), ?_⟩
  change ∃ earlier' since', Treasury.chargeBudget track amount blockHeight
      budgets.treasury.budgetPeriods = earlier' ++ since' ∧
    List.Forall₂ (Records funds (spentFrom budgets.treasury.balances track amount)) since'
      (budgets.created.map (·.count track amount blockHeight))
  rw [periods]
  by_cases before : ∃ bp ∈ earlier, bp.covers blockHeight = true
  · -- the period that is charged is older than the run
    refine ⟨_, since, chargeBudget_append_of_covered before since,
      idle_records records covered fun bp member => free bp ?_⟩
    obtain ⟨first, listed, here⟩ := before
    cases first : earlier.filter (·.covers blockHeight) with
    | nil => exact absurd here (List.filter_eq_nil_iff.mp first _ listed)
    | cons _ rest => exact List.mem_append_right rest member
  · have none : ∀ bp ∈ earlier, ¬bp.covers blockHeight = true :=
      fun bp listed here => before ⟨bp, listed, here⟩
    rw [List.filter_eq_nil_iff.mpr none, List.nil_append] at free
    rw [List.find?_eq_none.mpr none, Option.none_or] at within
    refine ⟨earlier, _, chargeBudget_append_of_free none since,
      charge_records records covered ?_ free⟩
    intro bp found
    rw [found] at within
    simpa using within

theorem after_keeps (call : BudgetCall) (kept : budgets.Kept funds) (one : budgets.OneLimit call) :
    (budgets.after call).Kept funds := by
  cases call with
  | createBudgetPeriod startBlock endBlock limits proposalId =>
      exact createBudgetPeriod_keeps kept startBlock endBlock limits proposalId
  | spend amount recipient proposalId track purpose blockHeight => exact spend_keeps kept one

/-- Where no spend meets a second limit at its height, every period created in the run has its
limits kept. -/
theorem budgets_respected (treasury : Treasury) (calls : List BudgetCall)
    (one : Obeys OneLimit after (opened treasury) calls) :
    (calls.foldl after (opened treasury)).Respected :=
  (one.invariant (fun _ call kept here => after_keeps call kept here) (opened_kept treasury)).respected

/-- Something to spend, and nothing reserved. -/
def fundedTreasury : Treasury := ((Treasury.new 2 0).deposit 100 [1] .grants 0).2

/-- Two periods that do not meet, and a spend in each. -/
def twoSeasons : List BudgetCall :=
  [.createBudgetPeriod 0 9 (fun _ => 50) 1, .createBudgetPeriod 10 19 (fun _ => 10) 1,
   .spend 20 [2] 1 .grants "audit" 5, .spend 10 [2] 1 .grants "audit" 12]

theorem twoSeasons_respected : (twoSeasons.foldl after (opened fundedTreasury)).Respected :=
  budgets_respected fundedTreasury twoSeasons (by decide +kernel)

/-- The height is in two periods, and the limit of the second is not looked at. -/
theorem second_limit_exceeded :
    ¬ ∀ (treasury : Treasury) (calls : List BudgetCall),
      (calls.foldl after (opened treasury)).Respected := by
  intro claim
  have respected := claim fundedTreasury
    [.createBudgetPeriod 0 19 (fun _ => 50) 1, .createBudgetPeriod 0 19 (fun _ => 10) 1,
     .spend 20 [2] 1 .grants "audit" 5]
  have second := respected _ (List.mem_cons_of_mem _ List.mem_cons_self) .grants
  revert second
  decide +kernel

end Budgets

end Parthenon.Governance
