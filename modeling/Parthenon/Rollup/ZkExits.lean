import Parthenon.Crypto.ZkSnark
import Parthenon.Library.Runs
import Parthenon.Rollup.ZkState

namespace Parthenon.Rollup

open Library Crypto Std

/-! # Exits from the zero-knowledge rollup

An exit is requested with a proof that the account is in some tree and a proof of
its owner, and then processed.
-/

structure ExitRequest where
  account : Bytes
  amount : UInt64
  merkleRoot : Hash
  merkleProof : List (Hash × Bool)
  ownershipProof : ZKProof
  requestBlock : UInt64
  processed : Bool
deriving DecidableEq, Repr

structure ZKRollupExitManager where
  pendingExits : ExtTreeMap Bytes ExitRequest compare
  proofParams : ProofParameters

def serializeExitInputs (account : Bytes) (amount : UInt64) : Bytes :=
  account ++ littleEndian 8 amount.toNat

def verifyZkProof (proof : ZKProof) (params : ProofParameters) (inputs : Bytes) : Bool :=
  if !proof.publicInputs.isEmpty ∧ proof.publicInputs ≠ inputs then false
  else params.verifyProof proof inputs

namespace ZKRollupExitManager

def withParams (params : ProofParameters) : ZKRollupExitManager where
  pendingExits := ∅
  proofParams := params

def new : ZKRollupExitManager := withParams (ProofParameters.setup 1024)

variable (manager : ZKRollupExitManager)

/-- The root is the request's own. -/
def verifyExitProof (request : ExitRequest) : Bool :=
  if request.account.isEmpty ∨ request.amount = 0 then false
  else if climb hashPair (hashAccount request.account) request.merkleProof ≠ request.merkleRoot then
    false
  else
    verifyZkProof request.ownershipProof manager.proofParams
      (serializeExitInputs request.account request.amount)

/-- The request is stored as the caller made it. -/
def requestExit (request : ExitRequest) : Bool × ZKRollupExitManager :=
  if !manager.verifyExitProof request then (false, manager)
  else
    match manager.pendingExits[request.account]? with
    | some pending =>
        if !pending.processed then (false, manager)
        else
          (true,
            { manager with pendingExits := manager.pendingExits.insert request.account request })
    | none =>
        (true, { manager with pendingExits := manager.pendingExits.insert request.account request })

/-- Whether the exit was processed before is not looked at. -/
def processExit (account : Bytes) : Bool × ZKRollupExitManager :=
  match manager.pendingExits[account]? with
  | none => (false, manager)
  | some request =>
      (true,
        { manager with
          pendingExits := manager.pendingExits.insert account { request with processed := true } })

def getPendingExits : List ExitRequest := manager.pendingExits.values.filter fun request =>
  !request.processed

/-- What a request that is answered with `true` leaves behind. -/
theorem requestExit_cases (request : ExitRequest) :
    (manager.requestExit request).1 = false ∧ (manager.requestExit request).2 = manager ∨
      manager.requestExit request = (true,
        { manager with pendingExits := manager.pendingExits.insert request.account request }) := by
  unfold requestExit
  split
  · exact .inl ⟨rfl, rfl⟩
  split
  · split
    · exact .inl ⟨rfl, rfl⟩
    · exact .inr rfl
  · exact .inr rfl

/-- A request with the owner's proof, under the root its own path climbs to, verifies. -/
theorem verifyExitProof_of_owner {request : ExitRequest} (someAccount : request.account ≠ [])
    (someAmount : request.amount ≠ 0)
    (rooted : climb hashPair (hashAccount request.account) request.merkleProof = request.merkleRoot)
    (owned : request.ownershipProof =
      manager.proofParams.proofOf (serializeExitInputs request.account request.amount)) :
    manager.verifyExitProof request = true := by
  have inputs : serializeExitInputs request.account request.amount ≠ [] := by
    simp [serializeExitInputs, someAccount]
  have account : request.account.isEmpty = false := by simpa using someAccount
  have verified := manager.proofParams.verifyProof_proofOf inputs
  rw [← owned] at verified
  have noInputs : request.ownershipProof.publicInputs = [] := by
    rw [owned]
    rfl
  simp only [verifyExitProof, account, someAmount, rooted, verifyZkProof, noInputs, verified]
  simp

end ZKRollupExitManager

/-! ## Runs of exits -/

/-- What an exit pays, without the fields that are bookkeeping. -/
structure ExitContent where
  account : Bytes
  amount : UInt64
  merkleRoot : Hash
  merkleProof : List (Hash × Bool)
  ownershipProof : ZKProof
deriving DecidableEq, Repr

def ExitRequest.content (request : ExitRequest) : ExitContent where
  account := request.account
  amount := request.amount
  merkleRoot := request.merkleRoot
  merkleProof := request.merkleProof
  ownershipProof := request.ownershipProof

theorem content_processed (request : ExitRequest) (processed : Bool) :
    ExitRequest.content { request with processed } = request.content := rfl

inductive ExitCall
  | request (request : ExitRequest)
  | process (account : Bytes)

/-- A call that was answered with `true`. -/
inductive ExitEntry
  | accepted (content : ExitContent)
  | paid (content : ExitContent)
deriving DecidableEq, Repr

namespace ExitEntry

def account : ExitEntry → Bytes
  | accepted content => content.account
  | paid content => content.account

def isAccepted (account : Bytes) : ExitEntry → Bool
  | accepted content => content.account == account
  | paid _ => false

def isPaid (account : Bytes) : ExitEntry → Bool
  | accepted _ => false
  | paid content => content.account == account

def paid? : ExitEntry → Option ExitContent
  | accepted _ => none
  | paid content => some content

end ExitEntry

/-- A manager with what was accepted and paid, the newest first. -/
structure ExitLedger where
  manager : ZKRollupExitManager
  entries : List ExitEntry

namespace ExitLedger

def opened (params : ProofParameters) : ExitLedger where
  manager := .withParams params
  entries := []

variable (ledger : ExitLedger)

/-- An exit that is processed pays what its record says. -/
def after : ExitCall → ExitLedger
  | .request request =>
      { manager := (ledger.manager.requestExit request).2
        entries := if (ledger.manager.requestExit request).1 then
            .accepted request.content :: ledger.entries
          else ledger.entries }
  | .process account =>
      { manager := (ledger.manager.processExit account).2
        entries := if (ledger.manager.processExit account).1 then
            (ledger.manager.pendingExits[account]?.map fun request =>
              ExitEntry.paid request.content).toList ++ ledger.entries
          else ledger.entries }

/-- The newest entry of the account. -/
def latest (account : Bytes) : Option ExitEntry :=
  ledger.entries.find? fun entry => entry.account == account

def contents : List ExitContent := ledger.entries.filterMap ExitEntry.paid?

/-- No account is paid more often than it was accepted, and nothing is paid twice. -/
structure PaysOnce : Prop where
  counts : ∀ account, ledger.entries.countP (ExitEntry.isPaid account) ≤
    ledger.entries.countP (ExitEntry.isAccepted account)
  once : ledger.contents.Nodup

/-- An exit is processed once after it was accepted, and what was paid is not
accepted again. -/
def Orderly : ExitCall → Prop
  | .request request =>
      (ledger.manager.requestExit request).1 = true → request.content ∉ ledger.contents
  | .process account => ∀ content, ledger.latest account ≠ some (.paid content)

/-- The record of an account is the last one accepted, and one that is still to be
paid has not been. -/
structure Sound : Prop where
  record : ∀ account request, ledger.manager.pendingExits[account]? = some request →
    request.account = account ∧ (ledger.latest account = some (.accepted request.content) ∨
      ledger.latest account = some (.paid request.content))
  unpaid : ∀ account content, ledger.latest account = some (.accepted content) →
    content ∉ ledger.contents
  owed : ∀ account content, ledger.latest account = some (.accepted content) →
    ledger.entries.countP (ExitEntry.isPaid account) <
      ledger.entries.countP (ExitEntry.isAccepted account)
  paysOnce : ledger.PaysOnce

theorem opened_sound (params : ProofParameters) : (opened params).Sound where
  record account request found := absurd found not_found_empty
  unpaid account content newest := by cases newest
  owed account content newest := by cases newest
  paysOnce :=
    { counts := fun account => Nat.le_refl _
      once := List.nodup_nil }

variable {ledger : ExitLedger}

theorem latest_account {account : Bytes} {entry : ExitEntry}
    (newest : ledger.latest account = some entry) : entry.account = account := by
  have matches_ := List.find?_some newest
  exact eq_of_beq matches_

theorem latest_cons (manager : ZKRollupExitManager) (entry : ExitEntry) (entries : List ExitEntry)
    (account : Bytes) :
    latest { manager, entries := entry :: entries } account =
      if entry.account = account then some entry else latest { manager, entries } account := by
  unfold latest
  dsimp only
  rw [List.find?_cons]
  by_cases same : entry.account = account
  · rw [if_pos same]
    simp [same]
  · rw [if_neg same]
    simp [beq_eq_false_iff_ne.mpr same]

theorem counts_accepted (content : ExitContent) (entries : List ExitEntry) (account : Bytes) :
    (.accepted content :: entries).countP (ExitEntry.isPaid account) =
        entries.countP (ExitEntry.isPaid account) ∧
      (.accepted content :: entries).countP (ExitEntry.isAccepted account) =
        entries.countP (ExitEntry.isAccepted account) + if content.account = account then 1 else 0 := by
  simp [List.countP_cons, ExitEntry.isPaid, ExitEntry.isAccepted]

theorem counts_paid (content : ExitContent) (entries : List ExitEntry) (account : Bytes) :
    (.paid content :: entries).countP (ExitEntry.isPaid account) =
        (entries.countP (ExitEntry.isPaid account) + if content.account = account then 1 else 0) ∧
      (.paid content :: entries).countP (ExitEntry.isAccepted account) =
        entries.countP (ExitEntry.isAccepted account) := by
  simp [List.countP_cons, ExitEntry.isPaid, ExitEntry.isAccepted]

/-- A record that is written with its entry is that of the newest entry. -/
theorem Sound.record_written (sound : ledger.Sound) {account : Bytes} {request : ExitRequest}
    (isAccount : request.account = account) {entry : ExitEntry}
    (isEntry : entry = .accepted request.content ∨ entry = .paid request.content)
    (manager : ZKRollupExitManager) {other : Bytes} {found : ExitRequest}
    (isFound : (ledger.manager.pendingExits.insert account request)[other]? = some found) :
    found.account = other ∧
      (latest { manager, entries := entry :: ledger.entries } other =
          some (.accepted found.content) ∨
        latest { manager, entries := entry :: ledger.entries } other = some (.paid found.content)) := by
  have entryAccount : entry.account = account := by
    rcases isEntry with rfl | rfl
    · exact isAccount
    · exact isAccount
  rw [latest_cons, entryAccount]
  rw [getElem?_insert_eq] at isFound
  by_cases same : account = other
  · rw [if_pos same] at isFound
    cases isFound
    rw [if_pos same, Option.some.injEq, Option.some.injEq]
    exact ⟨isAccount.trans same, isEntry⟩
  · rw [if_neg same] at isFound
    rw [if_neg same]
    exact sound.record other found isFound

theorem Sound.accept (sound : ledger.Sound) {request : ExitRequest}
    (unpaid : request.content ∉ ledger.contents) :
    Sound
      { manager :=
          { ledger.manager with
            pendingExits := ledger.manager.pendingExits.insert request.account request }
        entries := .accepted request.content :: ledger.entries } where
  record account found isFound := sound.record_written rfl (.inl rfl) _ isFound
  unpaid account content newest := by
    rw [latest_cons, ExitEntry.account] at newest
    by_cases same : request.content.account = account
    · rw [if_pos same] at newest
      cases newest
      exact unpaid
    · rw [if_neg same] at newest
      exact sound.unpaid account content newest
  owed account content newest := by
    obtain ⟨paid, accepted⟩ := counts_accepted request.content ledger.entries account
    rw [latest_cons, ExitEntry.account] at newest
    rw [paid, accepted]
    by_cases same : request.content.account = account
    · have counted := sound.paysOnce.counts account
      rw [if_pos same]
      omega
    · rw [if_neg same] at newest ⊢
      have counted := sound.owed account content newest
      omega
  paysOnce :=
    { counts := fun account => by
        obtain ⟨paid, accepted⟩ := counts_accepted request.content ledger.entries account
        have counted := sound.paysOnce.counts account
        rw [paid, accepted]
        omega
      once := sound.paysOnce.once }

theorem Sound.pay (sound : ledger.Sound) {account : Bytes} {request : ExitRequest}
    (found : ledger.manager.pendingExits[account]? = some request)
    (first : ∀ content, ledger.latest account ≠ some (.paid content)) :
    Sound
      { manager :=
          { ledger.manager with
            pendingExits :=
              ledger.manager.pendingExits.insert account { request with processed := true } }
        entries := .paid request.content :: ledger.entries } := by
  obtain ⟨isAccount, newest⟩ := sound.record account request found
  have accepted : ledger.latest account = some (.accepted request.content) :=
    newest.resolve_right (first request.content)
  have contentAccount : request.content.account = account := isAccount
  have later : ∀ other content, latest
      { manager := ledger.manager, entries := .paid request.content :: ledger.entries } other =
        some (.accepted content) →
      account ≠ other ∧ ledger.latest other = some (.accepted content) := by
    intro other content newestOther
    rw [latest_cons, ExitEntry.account, contentAccount] at newestOther
    by_cases same : account = other
    · rw [if_pos same] at newestOther
      cases newestOther
    · rw [if_neg same] at newestOther
      exact ⟨same, newestOther⟩
  refine
    { record := fun other changed isFound => ?_
      unpaid := fun other content newestOther => ?_
      owed := fun other content newestOther => ?_
      paysOnce :=
        { counts := fun other => ?_
          once := List.nodup_cons.mpr ⟨sound.unpaid account _ accepted, sound.paysOnce.once⟩ } }
  · have processed : ({ request with processed := true } : ExitRequest).account = account := isAccount
    exact sound.record_written processed (.inr rfl) _ isFound
  · obtain ⟨apart, newestOther⟩ := later other content newestOther
    have otherAccount : content.account = other := latest_account newestOther
    intro listed
    rcases List.mem_cons.mp listed with rfl | before
    · exact apart (contentAccount.symm.trans otherAccount)
    · exact sound.unpaid other content newestOther before
  · obtain ⟨apart, newestOther⟩ := later other content newestOther
    obtain ⟨paid, accepted⟩ := counts_paid request.content ledger.entries other
    have counted := sound.owed other content newestOther
    rw [paid, accepted, contentAccount, if_neg apart]
    exact counted
  · obtain ⟨paid, unchanged⟩ := counts_paid request.content ledger.entries other
    rw [paid, unchanged, contentAccount]
    by_cases same : account = other
    · subst same
      rw [if_pos rfl]
      exact sound.owed account _ accepted
    · rw [if_neg same]
      exact sound.paysOnce.counts other

theorem Sound.after (sound : ledger.Sound) {call : ExitCall} (orderly : ledger.Orderly call) :
    (ledger.after call).Sound := by
  cases call with
  | request request =>
      rcases ledger.manager.requestExit_cases request with ⟨refused, same⟩ | accepted
      · simp only [ExitLedger.after, refused, same, Bool.false_eq_true, if_false]
        exact sound
      · have unpaid := orderly (by rw [accepted])
        simp only [ExitLedger.after, accepted, if_true]
        exact sound.accept unpaid
  | process account =>
      cases found : ledger.manager.pendingExits[account]? with
      | none =>
          simp only [ExitLedger.after, ZKRollupExitManager.processExit, found, Bool.false_eq_true,
            if_false]
          exact sound
      | some request =>
          simp only [ExitLedger.after, ZKRollupExitManager.processExit, found, if_true,
            Option.map_some, Option.toList_some, List.singleton_append]
          exact sound.pay found orderly

/-- In every run whose calls are orderly, every exit is paid once. -/
theorem orderly_run_paysOnce (params : ProofParameters) {calls : List ExitCall}
    {ledger : ExitLedger}
    (run : Run (fun ledger call after => ledger.Orderly call ∧ after = ledger.after call)
      (opened params) calls ledger) : ledger.PaysOnce := by
  have sound : ledger.Sound :=
    run.invariant (opened_sound params) fun ledger call after sound step => by
      obtain ⟨orderly, rfl⟩ := step
      exact sound.after orderly
  exact sound.paysOnce

/-! ## One request, processed twice -/

def owner : Bytes := [1]

/-- The tree of one account has its leaf as the root. -/
def withdrawal (amount : UInt64) : ExitRequest where
  account := owner
  amount := amount
  merkleRoot := hashAccount owner
  merkleProof := []
  ownershipProof := (ProofParameters.setup 1024).proofOf (serializeExitInputs owner amount)
  requestBlock := 0
  processed := false

theorem withdrawal_verified {manager : ZKRollupExitManager} {amount : UInt64}
    (params : manager.proofParams = ProofParameters.setup 1024) (some_ : amount ≠ 0) :
    manager.verifyExitProof (withdrawal amount) = true := by
  have someAccount : (withdrawal amount).account ≠ [] := List.cons_ne_nil 1 []
  have rooted : climb hashPair (hashAccount (withdrawal amount).account)
      (withdrawal amount).merkleProof = (withdrawal amount).merkleRoot := by
    simp only [climb, withdrawal, List.foldl_nil]
  have owned : (withdrawal amount).ownershipProof = manager.proofParams.proofOf
      (serializeExitInputs (withdrawal amount).account (withdrawal amount).amount) := by
    rw [params]
    simp only [withdrawal]
  exact manager.verifyExitProof_of_owner someAccount some_ rooted owned

theorem withdrawal_accepted {manager : ZKRollupExitManager} {amount : UInt64}
    (params : manager.proofParams = ProofParameters.setup 1024) (some_ : amount ≠ 0)
    (free : manager.pendingExits[owner]?.all ExitRequest.processed = true) :
    (manager.requestExit (withdrawal amount)).1 = true := by
  have isOwner : (withdrawal amount).account = owner := rfl
  unfold ZKRollupExitManager.requestExit
  rw [withdrawal_verified params some_, isOwner]
  cases found : manager.pendingExits[owner]? with
  | none => rfl
  | some pending =>
      rw [found, Option.all_some] at free
      simp [free]

theorem after_withdrawal {ledger : ExitLedger} {amount : UInt64}
    (params : ledger.manager.proofParams = ProofParameters.setup 1024) (some_ : amount ≠ 0)
    (free : ledger.manager.pendingExits[owner]?.all ExitRequest.processed = true) :
    ledger.after (.request (withdrawal amount)) =
      { manager :=
          { ledger.manager with
            pendingExits := ledger.manager.pendingExits.insert owner (withdrawal amount) }
        entries := .accepted (withdrawal amount).content :: ledger.entries } := by
  have accepted := withdrawal_accepted params some_ free
  rcases ledger.manager.requestExit_cases (withdrawal amount) with ⟨refused, -⟩ | made
  · rw [refused] at accepted
    cases accepted
  · rw [after, made]
    rfl

theorem after_process {ledger : ExitLedger} {account : Bytes} {request : ExitRequest}
    (found : ledger.manager.pendingExits[account]? = some request) :
    ledger.after (.process account) =
      { manager :=
          { ledger.manager with
            pendingExits :=
              ledger.manager.pendingExits.insert account { request with processed := true } }
        entries := .paid request.content :: ledger.entries } := by
  simp only [after, ZKRollupExitManager.processExit, found, if_true, Option.map_some,
    Option.toList_some, List.singleton_append]

def start : ExitLedger := opened (ProofParameters.setup 1024)

def firstRequested : ExitLedger := start.after (.request (withdrawal 1))

def firstPaid : ExitLedger := firstRequested.after (.process owner)

theorem firstRequested_eq : firstRequested =
    { manager :=
        { start.manager with
          pendingExits := start.manager.pendingExits.insert owner (withdrawal 1) }
      entries := [.accepted (withdrawal 1).content] } :=
  after_withdrawal rfl (by decide) (by
    change ((∅ : ExtTreeMap Bytes ExitRequest compare)[owner]?).all ExitRequest.processed = true
    rw [ExtTreeMap.getElem?_empty]
    rfl)

theorem firstRequested_found :
    firstRequested.manager.pendingExits[owner]? = some (withdrawal 1) := by
  rw [firstRequested_eq]
  exact ExtTreeMap.getElem?_insert_self

theorem firstPaid_eq : firstPaid =
    { manager :=
        { firstRequested.manager with
          pendingExits :=
            firstRequested.manager.pendingExits.insert owner { withdrawal 1 with processed := true } }
      entries := [.paid (withdrawal 1).content, .accepted (withdrawal 1).content] } := by
  rw [firstPaid, after_process firstRequested_found, firstRequested_eq]

theorem firstPaid_found :
    firstPaid.manager.pendingExits[owner]? = some { withdrawal 1 with processed := true } := by
  rw [firstPaid_eq]
  exact ExtTreeMap.getElem?_insert_self

/-- A request that differs from the paid one is paid as well. -/
def twoExits : List ExitCall :=
  [.request (withdrawal 1), .process owner, .request (withdrawal 2), .process owner]

theorem twoExits_obeys : Obeys ExitLedger.Orderly ExitLedger.after start twoExits := by
  refine ⟨fun _ listed => ?_, fun content newest => ?_, fun _ listed => ?_, fun content newest => ?_,
    trivial⟩
  · simp [contents, start, opened] at listed
  · change firstRequested.latest owner = _ at newest
    rw [firstRequested_eq, latest_cons] at newest
    cases newest
  · change (withdrawal 2).content ∈ firstPaid.contents at listed
    simp only [firstPaid_eq, contents, List.filterMap_cons, ExitEntry.paid?, List.filterMap_nil,
      List.mem_singleton] at listed
    have amounts := congrArg ExitContent.amount listed
    revert amounts
    decide
  · change (firstPaid.after (.request (withdrawal 2))).latest owner = _ at newest
    have params : firstPaid.manager.proofParams = ProofParameters.setup 1024 := by
      rw [firstPaid_eq, firstRequested_eq]
      rfl
    have free : firstPaid.manager.pendingExits[owner]?.all ExitRequest.processed = true := by
      rw [firstPaid_found]
      rfl
    rw [after_withdrawal params (by decide) free, latest_cons] at newest
    cases newest

theorem orderly_run_paysOnce_twoExits :
    (twoExits.foldl ExitLedger.after (opened (ProofParameters.setup 1024))).PaysOnce :=
  orderly_run_paysOnce (ProofParameters.setup 1024) (Run.extend .start twoExits_obeys)

theorem run_paysTwice : ¬ ∀ (params : ProofParameters) (calls : List ExitCall),
    (calls.foldl ExitLedger.after (opened params)).PaysOnce := by
  intro law
  have once := (law (ProofParameters.setup 1024)
    [.request (withdrawal 1), .process owner, .process owner]).once
  have reached : [ExitCall.request (withdrawal 1), .process owner, .process owner].foldl
      ExitLedger.after (opened (ProofParameters.setup 1024)) = firstPaid.after (.process owner) := by
    rw [firstPaid, firstRequested, start]
    simp only [List.foldl_cons, List.foldl_nil]
  rw [reached, after_process firstPaid_found, content_processed, firstPaid_eq] at once
  simp [contents, ExitEntry.paid?] at once

end ExitLedger

end Parthenon.Rollup
