import Parthenon.Library.Numbering
import Parthenon.Library.Runs
import Parthenon.Rollup.OptimisticRollup
import Mathlib.Data.List.Induction

namespace Parthenon.Rollup

open Library Crypto Std

/-! # The finalized chain

Batches are stacked on each other and a challenge takes back the last one only, so the
stored batches link up.  They are finalized one by one, in any order.
-/

abbrev BatchTable := UInt64 → Option BatchInfo

namespace BatchTable

variable (table : BatchTable)

def IsFinal (id : UInt64) : Prop := ∃ info ∈ table id, info.finalized = true

instance (id : UInt64) : Decidable (table.IsFinal id) :=
  inferInstanceAs (Decidable (∃ info ∈ table id, _))

/-- The final batches are numbered without gaps, and the first starts from the genesis root. -/
structure Ordered : Prop where
  contiguous : ∃ last : UInt64, ∀ id, table.IsFinal id ↔ 0 < id ∧ id ≤ last
  first : ∀ info, table 1 = some info → info.finalized = true →
    info.batch.stateRootBefore = zeroHash

/-- The batches up to the current one start where the one before ends.  What is stored
above it was challenged. -/
structure Linked (current : UInt64) (root : Hash) : Prop where
  stored : ∀ id, 0 < id → id ≤ current → ∃ info, table id = some info
  own : ∀ id info, table id = some info → info.batch.batchId = id ∧ 0 < id
  above : ∀ id info, table id = some info → current < id → info.challenged = true
  apart : ∀ id info, table id = some info → info.challenged = true → info.finalized = false
  continuous : ∀ id info previous, table id = some info → id ≤ current →
    table (id - 1) = some previous → info.batch.stateRootBefore = previous.batch.stateRootAfter
  tip : ∀ info, table current = some info → info.batch.stateRootAfter = root

variable {table} {current id : UInt64} {root : Hash} {info changed : BatchInfo}

theorem isFinal_update (id other : UInt64) :
    IsFinal (Function.update table id (some changed)) other ↔
      other = id ∧ changed.finalized = true ∨ other ≠ id ∧ table.IsFinal other := by
  unfold IsFinal
  by_cases same : other = id
  · subst same
    simp
  · simp [same]

theorem isFinal_update_same (found : table id = some info)
    (same : changed.finalized = info.finalized) (other : UInt64) :
    IsFinal (Function.update table id (some changed)) other ↔ table.IsFinal other := by
  rw [isFinal_update]
  by_cases here : other = id
  · subst here
    simp [IsFinal, found, same]
  · simp [here]

namespace Linked

theorem final_le (linked : table.Linked current root) (final : table.IsFinal id) :
    0 < id ∧ id ≤ current := by
  obtain ⟨info, found, finalized⟩ := final
  refine ⟨(linked.own id info found).2, ?_⟩
  by_contra above
  have open_ := linked.apart id info found (linked.above id info found (by grind))
  rw [finalized] at open_
  cases open_

theorem write (linked : table.Linked current root) (found : table id = some info)
    (same : changed.batch = info.batch) (still : info.challenged = true → changed.challenged = true)
    (apart : changed.challenged = true → changed.finalized = false) :
    Linked (Function.update table id (some changed)) current root := by
  -- whatever is found was there, with the same batch
  have before : ∀ other kept, Function.update table id (some changed) other = some kept →
      ∃ old, table other = some old ∧ kept.batch = old.batch ∧
        (old.challenged = true → kept.challenged = true) := by
    intro other kept written
    rcases update_cases written with ⟨rfl, rfl⟩ | ⟨-, there⟩
    · exact ⟨info, found, same, still⟩
    · exact ⟨kept, there, rfl, fun marked => marked⟩
  constructor
  · intro other positive below
    by_cases here : other = id
    · subst here
      exact ⟨changed, Function.update_self ..⟩
    · rw [Function.update_of_ne here]
      exact linked.stored other positive below
  · intro other kept written
    obtain ⟨old, there, batch, -⟩ := before other kept written
    rw [batch]
    exact linked.own other old there
  · intro other kept written beyond
    obtain ⟨old, there, -, marked⟩ := before other kept written
    exact marked (linked.above other old there beyond)
  · intro other kept written
    rcases update_cases written with ⟨rfl, rfl⟩ | ⟨-, there⟩
    · exact apart
    · exact linked.apart other kept there
  · intro other kept previous written below writtenBelow
    obtain ⟨old, there, batch, -⟩ := before other kept written
    obtain ⟨oldBelow, thereBelow, batchBelow, -⟩ := before _ previous writtenBelow
    rw [batch, batchBelow]
    exact linked.continuous other old oldBelow there below thereBelow
  · intro kept written
    obtain ⟨old, there, batch, -⟩ := before current kept written
    rw [batch]
    exact linked.tip old there

theorem rollback (linked : table.Linked current root) (found : table current = some info)
    (challenged : info.challenged = true) :
    Linked table (current - 1) info.batch.stateRootBefore := by
  have positive := (linked.own current info found).2
  constructor
  · intro other above below
    exact linked.stored other above (by grind)
  · exact linked.own
  · intro other kept there beyond
    by_cases here : other = current
    · subst here
      cases found.symm.trans there
      exact challenged
    · exact linked.above other kept there (by grind)
  · exact linked.apart
  · intro other kept previous there below
    exact linked.continuous other kept previous there (by grind)
  · intro previous there
    exact (linked.continuous current info previous found (by grind) there).symm

theorem push (linked : table.Linked current root) (next : info.batch.batchId = current + 1)
    (unwrapped : info.batch.batchId ≠ 0)
    (continues : 0 < current → info.batch.stateRootBefore = root)
    (fresh : info.finalized = false) :
    Linked (Function.update table info.batch.batchId (some info)) info.batch.batchId
      info.batch.stateRootAfter := by
  generalize own : info.batch.batchId = id at next unwrapped ⊢
  constructor
  · intro other positive below
    by_cases here : other = id
    · subst here
      exact ⟨info, Function.update_self ..⟩
    · rw [Function.update_of_ne here]
      exact linked.stored other positive (by grind)
  · intro other kept written
    rcases update_cases written with ⟨rfl, rfl⟩ | ⟨-, there⟩
    · exact ⟨own, by grind⟩
    · exact linked.own other kept there
  · intro other kept written beyond
    rcases update_cases written with ⟨rfl, rfl⟩ | ⟨-, there⟩
    · grind
    · exact linked.above other kept there (by grind)
  · intro other kept written
    rcases update_cases written with ⟨rfl, rfl⟩ | ⟨-, there⟩
    · exact fun _ => fresh
    · exact linked.apart other kept there
  · intro other kept previous written below writtenBelow
    have positive : 0 < other := by
      rcases update_cases written with ⟨rfl, -⟩ | ⟨-, there⟩
      · grind
      · exact (linked.own other kept there).2
    rcases update_cases writtenBelow with ⟨here, -⟩ | ⟨-, thereBelow⟩
    · grind
    rcases update_cases written with ⟨rfl, rfl⟩ | ⟨differs, there⟩
    · have isTip : other - 1 = current := by grind
      rw [isTip] at thereBelow
      rw [continues (linked.own current previous thereBelow).2]
      exact (linked.tip previous thereBelow).symm
    · exact linked.continuous other kept previous there (by grind) thereBelow
  · intro kept written
    rw [Function.update_self] at written
    cases written
    rfl

end Linked

/-- The order does not depend on anything but what is final and where the first batch starts. -/
theorem Ordered.congr {other : BatchTable} (finals : ∀ id, other.IsFinal id ↔ table.IsFinal id)
    (starts : ∀ info, other 1 = some info → info.finalized = true →
      ∃ old, table 1 = some old ∧ old.finalized = true ∧
        old.batch.stateRootBefore = info.batch.stateRootBefore)
    (ordered : table.Ordered) : other.Ordered := by
  obtain ⟨⟨last, contiguous⟩, first⟩ := ordered
  refine ⟨⟨last, fun id => (finals id).trans (contiguous id)⟩, ?_⟩
  intro info found finalized
  obtain ⟨old, there, oldFinal, same⟩ := starts info found finalized
  rw [← same]
  exact first old there oldFinal

/-- Writing over a batch keeps the order if it does not touch what is final. -/
theorem Ordered.write (ordered : table.Ordered) (found : table id = some info)
    (same : changed.batch = info.batch) (kept : changed.finalized = info.finalized) :
    Ordered (Function.update table id (some changed)) := by
  refine ordered.congr (isFinal_update_same found kept) ?_
  intro first written finalized
  rcases update_cases written with ⟨rfl, rfl⟩ | ⟨-, there⟩
  · exact ⟨info, found, kept.symm.trans finalized, by rw [same]⟩
  · exact ⟨first, there, finalized, rfl⟩

theorem Ordered.push (ordered : table.Ordered) (open_ : ¬ table.IsFinal id)
    (fresh : info.finalized = false) : Ordered (Function.update table id (some info)) := by
  refine ordered.congr ?_ ?_
  · intro other
    rw [isFinal_update]
    by_cases here : other = id
    · subst here
      simp [fresh, open_]
    · simp [here]
  · intro first written finalized
    rcases update_cases written with ⟨rfl, rfl⟩ | ⟨-, there⟩
    · rw [fresh] at finalized
      cases finalized
    · exact ⟨first, there, finalized, rfl⟩

/-- The next batch to be finalized is the one after the last final one, and the first
one starts from the genesis root. -/
def Next (table : BatchTable) (id : UInt64) (info : BatchInfo) : Prop :=
  if id = 1 then info.batch.stateRootBefore = zeroHash else table.IsFinal (id - 1)

instance (id : UInt64) (info : BatchInfo) : Decidable (table.Next id info) :=
  inferInstanceAs (Decidable (if id = 1 then _ else _))

theorem ordered_finalize_iff (linked : table.Linked current root) (ordered : table.Ordered)
    (found : table id = some info) :
    Ordered (Function.update table id (some { info with finalized := true })) ↔
      table.Next id info := by
  have positive := (linked.own id info found).2
  obtain ⟨⟨last, contiguous⟩, first⟩ := ordered
  unfold Next
  constructor
  · rintro ⟨⟨longer, continued⟩, starts⟩
    by_cases isFirst : id = 1
    · subst isFirst
      rw [if_pos rfl]
      exact starts { info with finalized := true } (Function.update_self ..) rfl
    · rw [if_neg isFirst]
      have here := (continued id).mp ((isFinal_update id id).mpr (.inl ⟨rfl, rfl⟩))
      have below := (continued (id - 1)).mpr (by grind)
      rcases (isFinal_update id (id - 1)).mp below with ⟨same, -⟩ | ⟨-, final⟩
      · grind
      · exact final
  · intro next
    have within : id - 1 ≤ last := by
      by_cases isFirst : id = 1
      · grind
      · rw [if_neg isFirst, contiguous] at next
        exact next.2
    have longer : ∃ longer : UInt64, ∀ other,
        other = id ∨ other ≠ id ∧ 0 < other ∧ other ≤ last ↔ 0 < other ∧ other ≤ longer := by
      by_cases further : last < id
      · exact ⟨id, by grind⟩
      · exact ⟨last, by grind⟩
    obtain ⟨longer, isLonger⟩ := longer
    refine ⟨⟨longer, fun other => ?_⟩, ?_⟩
    · rw [isFinal_update, contiguous, and_iff_left rfl]
      exact isLonger other
    · intro kept written finalized
      rcases update_cases written with ⟨rfl, rfl⟩ | ⟨-, there⟩
      · rw [if_pos rfl] at next
        exact next
      · exact first kept there finalized

end BatchTable

namespace OptimisticRollup

variable (rollup : OptimisticRollup)

def table : BatchTable := fun id => rollup.batches[id]?

theorem table_insert {after : OptimisticRollup} {id : UInt64} {info : BatchInfo}
    (written : after.batches = rollup.batches.insert id info) :
    after.table = Function.update rollup.table id (some info) := by
  unfold table
  rw [written, getElem?_insert_update]

theorem submitBatch_cases (batch : RollupBatch) :
    rollup.submitBatch batch = (false, rollup) ∨
      batch.batchId = rollup.currentBatchId + 1 ∧
        (0 < rollup.currentBatchId → batch.stateRootBefore = rollup.currentStateRoot) ∧
        ∃ info after, info.batch = batch ∧ info.challenged = false ∧ info.finalized = false ∧
          rollup.submitBatch batch = (true, after) ∧
          after.table = Function.update rollup.table batch.batchId (some info) ∧
          after.currentBatchId = batch.batchId ∧ after.currentStateRoot = batch.stateRootAfter := by
  unfold submitBatch
  split
  · exact .inl rfl
  rename_i next
  split
  · exact .inl rfl
  rename_i continues
  have continued : 0 < rollup.currentBatchId → batch.stateRootBefore = rollup.currentStateRoot := by
    intro positive
    by_contra differs
    exact continues ⟨positive, differs⟩
  exact .inr ⟨not_not.mp next, continued,
    { batch, submissionBlock := rollup.currentBlockHeight, finalized := false, challenged := false },
    _, rfl, rfl, rfl, rfl, rollup.table_insert rfl, rfl, rfl⟩

/-- A proof that is accepted marks the batch, and takes it back if it is the last one. -/
theorem submitFraudProof_cases (proof : FraudProof) :
    rollup.submitFraudProof proof = (false, rollup) ∨
      ∃ info marked, rollup.table proof.batchId = some info ∧ info.finalized = false ∧
        marked.table =
          Function.update rollup.table proof.batchId (some { info with challenged := true }) ∧
        marked.currentBatchId = rollup.currentBatchId ∧
        marked.currentStateRoot = rollup.currentStateRoot ∧
        rollup.submitFraudProof proof =
          (true,
            if info.batch.batchId = rollup.currentBatchId then
              { marked with
                currentStateRoot := info.batch.stateRootBefore
                currentBatchId := rollup.currentBatchId - 1 }
            else marked) := by
  unfold submitFraudProof table
  cases found : rollup.batches[proof.batchId]? with
  | none => exact .inl rfl
  | some info =>
      dsimp only
      split
      · exact .inl rfl
      rename_i open_
      split
      · exact .inl rfl
      refine .inr ⟨info,
        { rollup with
          batches := rollup.batches.insert proof.batchId { info with challenged := true } },
        rfl, Bool.eq_false_of_not_eq_true open_, rollup.table_insert rfl, rfl, rfl, ?_⟩
      split <;> rfl

/-- The checks before a batch is finalized. -/
def Ready (info : BatchInfo) : Prop :=
  ¬ rollup.currentBlockHeight < info.submissionBlock + rollup.challengePeriod ∧ info.challenged = false

instance (info : BatchInfo) : Decidable (rollup.Ready info) :=
  inferInstanceAs (Decidable (_ ∧ _))

theorem finalizeBatch_cases (id : UInt64) :
    rollup.finalizeBatch id = (false, rollup) ∧
        (∀ info, rollup.table id = some info → ¬ rollup.Ready info) ∨
      ∃ info after, rollup.table id = some info ∧ rollup.Ready info ∧
        rollup.finalizeBatch id = (true, after) ∧
        after.table = Function.update rollup.table id (some { info with finalized := true }) ∧
        after.currentBatchId = rollup.currentBatchId ∧
        after.currentStateRoot = rollup.currentStateRoot := by
  unfold finalizeBatch table
  cases found : rollup.batches[id]? with
  | none => exact .inl ⟨rfl, nofun⟩
  | some info =>
      dsimp only
      split
      · rename_i early
        refine .inl ⟨rfl, ?_⟩
        rintro other ⟨⟩ ready
        exact ready.1 early
      rename_i elapsed
      split
      · rename_i challenged
        refine .inl ⟨rfl, ?_⟩
        rintro other ⟨⟩ ready
        exact Bool.eq_false_iff.mp ready.2 challenged
      · rename_i unchallenged
        exact .inr ⟨info, _, rfl, ⟨elapsed, Bool.eq_false_of_not_eq_true unchallenged⟩, rfl,
          rollup.table_insert rfl, rfl, rfl⟩

end OptimisticRollup

/-! ## Histories -/

/-- A rollup with its batches numbered as they are submitted: the line of a batch is the
batch and those it is built on.  The batches that were challenged, and the lines of those
that were finalized. -/
structure History where
  rollup : OptimisticRollup
  number : UInt64 → Nat
  line : UInt64 → List Nat
  submitted : Nat
  challenged : List Nat
  finalized : List (List Nat)

namespace History

def start : History where
  rollup := .new
  number _ := 0
  line _ := []
  submitted := 0
  challenged := []
  finalized := []

variable (history : History)

def after : OptimisticRollup.Call → History
  | .submitBatch batch =>
      let (taken, rollup) := history.rollup.submitBatch batch
      if taken then
        { history with
          rollup
          number := Function.update history.number batch.batchId history.submitted
          line := Function.update history.line batch.batchId
            (history.submitted :: history.line (batch.batchId - 1))
          submitted := history.submitted + 1 }
      else { history with rollup }
  | .submitFraudProof proof =>
      let (taken, rollup) := history.rollup.submitFraudProof proof
      { history with
        rollup
        challenged :=
          if taken then history.number proof.batchId :: history.challenged else history.challenged }
  | .finalizeBatch id =>
      let (taken, rollup) := history.rollup.finalizeBatch id
      { history with
        rollup
        finalized := if taken then history.line id :: history.finalized else history.finalized }
  | call => { history with rollup := (history.rollup.apply call).2 }

/-- A history is one of the rollup. -/
theorem foldl_after_rollup (calls : List OptimisticRollup.Call) :
    (calls.foldl after start).rollup = OptimisticRollup.run calls := by
  unfold OptimisticRollup.run
  induction calls using List.reverseRecOn with
  | nil => rfl
  | append_singleton calls call ih =>
      rw [List.foldl_append, List.foldl_append, ← ih]
      generalize calls.foldl after start = history
      cases call with
      | submitBatch batch =>
          simp only [List.foldl_cons, List.foldl_nil, after, OptimisticRollup.apply]
          split <;> rfl
      | submitFraudProof | finalizeBatch | setChallengePeriod | updateBlockHeight => rfl

/-- The final batches are in order, each starts where the one before ends, and neither
they nor what they are built on was ever challenged. -/
structure Chained : Prop where
  ordered : history.rollup.table.Ordered
  continuous : ∀ id info previous, history.rollup.table id = some info → info.finalized = true →
    history.rollup.table (id - 1) = some previous →
      info.batch.stateRootBefore = previous.batch.stateRootAfter
  unchallenged : ∀ line ∈ history.finalized, ∀ number ∈ line, number ∉ history.challenged

structure Sound : Prop where
  linked : history.rollup.table.Linked history.rollup.currentBatchId history.rollup.currentStateRoot
  numbered : Numbered history.rollup.table history.number history.submitted
  ground : history.line 0 = []
  lines : ∀ id, 0 < id → id ≤ history.rollup.currentBatchId →
    history.line id = history.number id :: history.line (id - 1)
  marked : ∀ id info, history.rollup.table id = some info →
    (info.challenged = true ↔ history.number id ∈ history.challenged)
  earlier : ∀ number ∈ history.challenged, number < history.submitted
  recorded : ∀ line ∈ history.finalized, ∃ id, history.rollup.table.IsFinal id ∧ history.line id = line

/-- The ids do not wrap. -/
def Unwrapped : OptimisticRollup.Call → Prop
  | .submitBatch batch => batch.batchId = history.rollup.currentBatchId + 1 → batch.batchId ≠ 0
  | _ => True

/-- A batch that passes the checks is finalized in its turn. -/
def Orderly : OptimisticRollup.Call → Prop
  | .finalizeBatch id =>
      ∀ info ∈ history.rollup.batches[id]?, history.rollup.Ready info →
        history.rollup.table.Next id info
  | _ => True

instance : ∀ call, Decidable (history.Unwrapped call)
  | .submitBatch _ => inferInstanceAs (Decidable (_ → _))
  | .submitFraudProof _ | .finalizeBatch _ | .setChallengePeriod _ | .updateBlockHeight _ =>
      inferInstanceAs (Decidable True)

instance : ∀ call, Decidable (history.Orderly call)
  | .finalizeBatch _ => inferInstanceAs (Decidable (∀ info ∈ _, _ → _))
  | .submitBatch _ | .submitFraudProof _ | .setChallengePeriod _ | .updateBlockHeight _ =>
      inferInstanceAs (Decidable True)

variable {history} {id : UInt64} {info : BatchInfo}

theorem start_sound : start.Sound where
  linked :=
    { stored := fun id positive below => by
        change id ≤ 0 at below
        grind
      own := fun _ _ found => absurd found not_found_empty
      above := fun _ _ found => absurd found not_found_empty
      apart := fun _ _ found => absurd found not_found_empty
      continuous := fun _ _ _ found => absurd found not_found_empty
      tip := fun _ found => absurd found not_found_empty }
  numbered := ⟨fun _ _ found => absurd found not_found_empty,
    fun _ _ _ _ found => absurd found not_found_empty⟩
  ground := rfl
  lines id positive below := by
    change id ≤ 0 at below
    grind
  marked := fun _ _ found => absurd found not_found_empty
  earlier := nofun
  recorded := nofun

theorem start_ordered : start.rollup.table.Ordered where
  contiguous := by
    refine ⟨0, fun id => iff_of_false ?_ (by grind)⟩
    rintro ⟨info, found, -⟩
    exact absurd found not_found_empty
  first := fun _ found => absurd found not_found_empty

theorem toNat_pred (positive : 0 < id) : (id - 1).toNat + 1 = id.toNat := by
  rw [UInt64.toNat_sub_of_le id 1 (by grind)]
  exact Nat.sub_add_cancel (UInt64.lt_iff_toNat_lt.mp positive)

namespace Sound

/-- Where the final batches have no gaps, the line of a final batch is final. -/
theorem unchallenged (sound : history.Sound) (ordered : history.rollup.table.Ordered)
    (final : history.rollup.table.IsFinal id) :
    ∀ number ∈ history.line id, number ∉ history.challenged := by
  obtain ⟨⟨last, contiguous⟩, -⟩ := ordered
  -- down the line, from each batch to the one below
  induction count : id.toNat generalizing id with
  | zero =>
      have positive := toNat_pred (sound.linked.final_le final).1
      omega
  | succ count ih =>
      obtain ⟨positive, within⟩ := sound.linked.final_le final
      obtain ⟨info, found, finalized⟩ := final
      rw [sound.lines id positive within]
      intro number member
      rcases List.mem_cons.mp member with rfl | below
      · intro listed
        have open_ := sound.linked.apart id info found ((sound.marked id info found).mpr listed)
        rw [finalized] at open_
        cases open_
      · by_cases isFirst : id = 1
        · subst isFirst
          rw [show (1 : UInt64) - 1 = 0 from rfl, sound.ground] at below
          cases below
        · have inside := (contiguous id).mp ⟨info, found, finalized⟩
          have predecessor := toNat_pred positive
          exact ih ((contiguous (id - 1)).mpr (by grind)) (by omega) number below

theorem chained_iff (sound : history.Sound) : history.Chained ↔ history.rollup.table.Ordered := by
  constructor
  · exact Chained.ordered
  · intro ordered
    refine ⟨ordered, ?_, ?_⟩
    · intro id info previous found finalized
      have within := (sound.linked.final_le ⟨info, found, finalized⟩).2
      exact sound.linked.continuous id info previous found within
    · intro line listed
      obtain ⟨id, final, rfl⟩ := sound.recorded line listed
      exact sound.unchallenged ordered final

variable {rollup : OptimisticRollup}

theorem push (sound : history.Sound) (isId : info.batch.batchId = id)
    (next : id = history.rollup.currentBatchId + 1) (unwrapped : id ≠ 0)
    (continues : 0 < history.rollup.currentBatchId →
      info.batch.stateRootBefore = history.rollup.currentStateRoot)
    (unchallenged : info.challenged = false) (open_ : info.finalized = false)
    (written : rollup.table = Function.update history.rollup.table id (some info))
    (current : rollup.currentBatchId = id)
    (root : rollup.currentStateRoot = info.batch.stateRootAfter) :
    Sound
      { history with
        rollup
        number := Function.update history.number id history.submitted
        line := Function.update history.line id (history.submitted :: history.line (id - 1))
        submitted := history.submitted + 1 } := by
  obtain ⟨linked, numbered, ground, lines, marked, earlier, recorded⟩ := sound
  subst isId
  constructor
  · dsimp only
    rw [written, current, root]
    exact linked.push next unwrapped continues open_
  · dsimp only
    rw [written]
    exact numbered.open_ _ info
  · dsimp only
    rw [Function.update_of_ne unwrapped.symm]
    exact ground
  · intro other positive below
    dsimp only at below ⊢
    have apart : other - 1 ≠ info.batch.batchId := by grind
    rw [Function.update_of_ne apart]
    by_cases here : other = info.batch.batchId
    · rw [here, Function.update_self, Function.update_self]
    · rw [Function.update_of_ne here, Function.update_of_ne here]
      exact lines other positive (by grind)
  · intro other kept found
    dsimp only at found ⊢
    rcases update_cases ((congrFun written other).symm.trans found) with
      ⟨rfl, rfl⟩ | ⟨differs, there⟩
    · rw [Function.update_self, unchallenged]
      refine iff_of_false nofun fun listed => ?_
      exact Nat.lt_irrefl _ (earlier _ listed)
    · rw [Function.update_of_ne differs]
      exact marked other kept there
  · intro number listed
    exact Nat.lt_succ_of_lt (earlier number listed)
  · intro line listed
    obtain ⟨other, final, isLine⟩ := recorded line listed
    -- what is final is below
    have differs : other ≠ info.batch.batchId := by
      have within := (linked.final_le final).2
      grind
    refine ⟨other, ?_, ?_⟩
    · dsimp only
      rw [written]
      exact (BatchTable.isFinal_update _ _).mpr (.inr ⟨differs, final⟩)
    · dsimp only
      rw [Function.update_of_ne differs]
      exact isLine

theorem challenge (sound : history.Sound) (found : history.rollup.table id = some info)
    (open_ : info.finalized = false)
    (written : rollup.table =
      Function.update history.rollup.table id (some { info with challenged := true }))
    (current : rollup.currentBatchId = history.rollup.currentBatchId)
    (root : rollup.currentStateRoot = history.rollup.currentStateRoot) :
    Sound { history with rollup, challenged := history.number id :: history.challenged } := by
  obtain ⟨linked, numbered, ground, lines, marked, earlier, recorded⟩ := sound
  constructor
  · dsimp only
    rw [written, current, root]
    exact linked.write found rfl (fun _ => rfl) (fun _ => open_)
  · dsimp only
    rw [written]
    exact numbered.write found _
  · exact ground
  · dsimp only
    rw [current]
    exact lines
  · intro other kept isKept
    dsimp only at isKept ⊢
    rcases update_cases ((congrFun written other).symm.trans isKept) with
      ⟨rfl, rfl⟩ | ⟨differs, there⟩
    · exact iff_of_true rfl List.mem_cons_self
    · have apart : history.number other ≠ history.number id := fun same =>
        differs (numbered.distinct other kept id info there found same)
      rw [List.mem_cons, or_iff_right apart]
      exact marked other kept there
  · intro number listed
    rcases List.mem_cons.mp listed with rfl | before
    · exact numbered.below id info found
    · exact earlier number before
  · intro line listed
    obtain ⟨other, final, isLine⟩ := recorded line listed
    refine ⟨other, ?_, isLine⟩
    dsimp only
    rw [written]
    exact (BatchTable.isFinal_update_same found (by rfl) other).mpr final

theorem rollback (sound : history.Sound)
    (found : history.rollup.table history.rollup.currentBatchId = some info)
    (challenged : info.challenged = true) (kept : rollup.table = history.rollup.table)
    (current : rollup.currentBatchId = history.rollup.currentBatchId - 1)
    (root : rollup.currentStateRoot = info.batch.stateRootBefore) :
    Sound { history with rollup } := by
  have positive := (sound.linked.own _ info found).2
  obtain ⟨linked, numbered, ground, lines, marked, earlier, recorded⟩ := sound
  constructor
  · dsimp only
    rw [kept, current, root]
    exact linked.rollback found challenged
  · dsimp only
    rw [kept]
    exact numbered
  · exact ground
  · intro other above below
    dsimp only at below
    exact lines other above (by grind)
  · dsimp only
    rw [kept]
    exact marked
  · exact earlier
  · dsimp only
    rw [kept]
    exact recorded

theorem finalize (sound : history.Sound) (found : history.rollup.table id = some info)
    (unchallenged : info.challenged = false)
    (written : rollup.table =
      Function.update history.rollup.table id (some { info with finalized := true }))
    (current : rollup.currentBatchId = history.rollup.currentBatchId)
    (root : rollup.currentStateRoot = history.rollup.currentStateRoot) :
    Sound { history with rollup, finalized := history.line id :: history.finalized } := by
  obtain ⟨linked, numbered, ground, lines, marked, earlier, recorded⟩ := sound
  constructor
  · dsimp only
    rw [written, current, root]
    refine linked.write found rfl (fun before => before) fun before => ?_
    rw [unchallenged] at before
    cases before
  · dsimp only
    rw [written]
    exact numbered.write found _
  · exact ground
  · dsimp only
    rw [current]
    exact lines
  · intro other kept isKept
    dsimp only at isKept ⊢
    rcases update_cases ((congrFun written other).symm.trans isKept) with ⟨rfl, rfl⟩ | ⟨-, there⟩
    · exact marked other info found
    · exact marked other kept there
  · exact earlier
  · intro line listed
    have final : ∀ other, rollup.table.IsFinal other ↔
        other = id ∨ other ≠ id ∧ history.rollup.table.IsFinal other := by
      intro other
      rw [written, BatchTable.isFinal_update, and_iff_left rfl]
    rcases List.mem_cons.mp listed with rfl | before
    · exact ⟨id, (final id).mpr (.inl rfl), rfl⟩
    · obtain ⟨other, already, isLine⟩ := recorded line before
      by_cases here : other = id
      · exact ⟨other, (final other).mpr (.inl here), isLine⟩
      · exact ⟨other, (final other).mpr (.inr ⟨here, already⟩), isLine⟩

/-- A call keeps a sound history sound, and it keeps the order just if it is orderly. -/
theorem after (sound : history.Sound) {call : OptimisticRollup.Call}
    (unwrapped : history.Unwrapped call) :
    (history.after call).Sound ∧ (history.rollup.table.Ordered →
      ((history.after call).rollup.table.Ordered ↔ history.Orderly call)) := by
  cases call with
  | submitBatch batch =>
      rcases history.rollup.submitBatch_cases batch with
        refused | ⟨next, continues, info, rollup, rfl, unchallenged, open_, taken, written, current, root⟩
      · simp only [History.after, refused, Bool.false_eq_true, if_false]
        exact ⟨sound, fun ordered => iff_of_true ordered trivial⟩
      · simp only [History.after, taken, if_true]
        have nonzero := unwrapped next
        refine ⟨sound.push rfl next nonzero continues unchallenged open_ written current root,
          fun ordered => iff_of_true ?_ trivial⟩
        rw [written]
        refine ordered.push (fun final => ?_) open_
        have within := (sound.linked.final_le final).2
        grind
  | submitFraudProof proof =>
      rcases history.rollup.submitFraudProof_cases proof with
        refused | ⟨info, rollup, found, open_, written, current, root, taken⟩
      · simp only [History.after, refused, Bool.false_eq_true, if_false]
        exact ⟨sound, fun ordered => iff_of_true ordered trivial⟩
      · simp only [History.after, taken, if_true]
        have challenged := sound.challenge found open_ written current root
        have kept : history.rollup.table.Ordered → rollup.table.Ordered := by
          intro ordered
          rw [written]
          exact ordered.write found rfl rfl
        split
        · rename_i isTip
          have isCurrent := (sound.linked.own _ info found).1.symm.trans isTip
          have tip : rollup.table rollup.currentBatchId = some { info with challenged := true } := by
            rw [written, current, isCurrent, Function.update_self]
          refine ⟨challenged.rollback tip rfl rfl ?_ rfl,
            fun ordered => iff_of_true (kept ordered) trivial⟩
          exact congrArg (· - 1) current.symm
        · exact ⟨challenged, fun ordered => iff_of_true (kept ordered) trivial⟩
  | finalizeBatch id =>
      rcases history.rollup.finalizeBatch_cases id with
        ⟨refused, unready⟩ | ⟨info, rollup, found, ready, taken, written, current, root⟩
      · simp only [History.after, refused, Bool.false_eq_true, if_false]
        refine ⟨sound, fun ordered => iff_of_true ordered ?_⟩
        intro info found ready
        exact absurd ready (unready info found)
      · simp only [History.after, taken, if_true]
        refine ⟨sound.finalize found ready.2 written current root, fun ordered => ?_⟩
        rw [written, BatchTable.ordered_finalize_iff sound.linked ordered found]
        refine ⟨fun next other isOther _ => ?_, fun orderly => orderly info found ready⟩
        cases found.symm.trans isOther
        exact next
  | setChallengePeriod | updateBlockHeight =>
      exact ⟨⟨sound.linked, sound.numbered, sound.ground, sound.lines, sound.marked, sound.earlier,
        sound.recorded⟩, fun ordered => iff_of_true ordered trivial⟩

end Sound

/-- In a run whose ids do not wrap the finalized batches are a chain after every call if
and only if each batch that passes the checks is finalized in its turn. -/
theorem run_chained_iff {calls : List OptimisticRollup.Call}
    (unwrapped : Obeys Unwrapped after start calls) :
    Obeys Orderly after start calls ↔ ∀ count, ((calls.take count).foldl after start).Chained := by
  refine obeys_iff_prefixes_within Sound ?_ ?_ start_sound
    (start_sound.chained_iff.mpr start_ordered) unwrapped
  · intro history call sound unwrapped
    exact (sound.after unwrapped).1
  · intro history call sound unwrapped chained
    obtain ⟨kept, exactly⟩ := sound.after unwrapped
    exact kept.chained_iff.trans (exactly chained.ordered)

/-- Two batches, one on the other, and the end of the challenge period. -/
def stacked : List OptimisticRollup.Call :=
  let batch (batchId : UInt64) (before after : Hash) : RollupBatch :=
    { batchId
      stateRootBefore := before
      stateRootAfter := after
      transactions := [.ofNat 32 7]
      timestamp := 0
      operatorSignature := [1] }
  [.submitBatch (batch 1 zeroHash (.ofNat 32 1)), .submitBatch (batch 2 (.ofNat 32 1) (.ofNat 32 2)),
    .updateBlockHeight 100]

def inTurn : List OptimisticRollup.Call := stacked ++ [.finalizeBatch 1, .finalizeBatch 2]

theorem run_chained_inTurn : ((inTurn.take 5).foldl after start).Chained :=
  (run_chained_iff (by decide +kernel)).mp (by decide +kernel) 5

/-- The second batch is finalized first. -/
theorem run_not_chained :
    ¬ ∀ calls : List OptimisticRollup.Call, (calls.foldl after start).Chained := by
  intro always
  obtain ⟨last, contiguous⟩ := (always (stacked ++ [.finalizeBatch 2])).ordered.contiguous
  have second := (contiguous 2).mp (by decide +kernel)
  have first := (contiguous 1).mpr (by grind)
  exact absurd first (by decide +kernel)

end History

end Parthenon.Rollup
