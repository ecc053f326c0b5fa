import Mathlib.Data.List.Induction
import Parthenon.Library.ByteCodec
import Parthenon.Library.OrderedMap

namespace Parthenon.Governance

open Library Std

/-! # Ostracism

An address is nominated, voted on, banned for some blocks, and may be nominated again once
it is rehabilitated.  What was done about an address tells all that is recorded of it.
-/

inductive OstracismState
  | nominated
  | ostracized
  | rehabilitated
deriving DecidableEq, Repr

structure OstracismRecord where
  subject : Bytes
  nominator : Bytes
  reason : Bytes
  nominatedAtBlock : UInt64
  ostracizedAtBlock : UInt64
  banEndBlock : UInt64
  votesFor : UInt64
  votesAgainst : UInt64
  state : OstracismState
deriving DecidableEq, Repr

structure Ostracism where
  banDurationBlocks : UInt64
  requiredVotesFor : UInt64
  records : ExtTreeMap Bytes OstracismRecord compare
  /-- The addresses that have voted, in any order. -/
  voters : ExtTreeMap Bytes (List Bytes) compare

namespace Ostracism

def new (banDurationBlocks requiredVotesFor : UInt64) : Ostracism :=
  { banDurationBlocks, requiredVotesFor, records := ∅, voters := ∅ }

def record (ostracism : Ostracism) (subject : Bytes) (record : OstracismRecord) : Ostracism :=
  { ostracism with records := ostracism.records.insert subject record }

def nominate (ostracism : Ostracism) (subject nominator reason : Bytes) (blockHeight : UInt64) :
    Bool × Ostracism :=
  if subject.isEmpty ∨ nominator.isEmpty then (false, ostracism)
  else if subject = nominator then (false, ostracism)
  else if ostracism.records[subject]?.any (·.state ≠ .rehabilitated) then (false, ostracism)
  else
    let nominated := ostracism.record subject
      { subject, nominator, reason
        nominatedAtBlock := blockHeight
        ostracizedAtBlock := 0
        banEndBlock := 0
        votesFor := 0
        votesAgainst := 0
        state := .nominated }
    (true, { nominated with voters := ostracism.voters.insert subject [] })

def hasVoted (ostracism : Ostracism) (subject voter : Bytes) : Bool :=
  match ostracism.voters[subject]? with
  | none => false
  | some voted => voter ∈ voted

def vote (ostracism : Ostracism) (subject voter : Bytes) (voteToOstracize : Bool) :
    Bool × Ostracism :=
  match ostracism.records[subject]? with
  | none => (false, ostracism)
  | some current =>
      if current.state ≠ .nominated then (false, ostracism)
      else if ostracism.hasVoted subject voter then (false, ostracism)
      else
        let counted := ostracism.record subject
          (if voteToOstracize then { current with votesFor := current.votesFor + 1 }
          else { current with votesAgainst := current.votesAgainst + 1 })
        (true, { counted with
          voters := ostracism.voters.insert subject (voter :: ostracism.voters.getD subject []) })

def finalize (ostracism : Ostracism) (subject : Bytes) (blockHeight : UInt64) : Bool × Ostracism :=
  match ostracism.records[subject]? with
  | none => (false, ostracism)
  | some current =>
      if current.state ≠ .nominated then (false, ostracism)
      else if current.votesFor < ostracism.requiredVotesFor then (false, ostracism)
      else
        (true, ostracism.record subject { current with
          state := .ostracized
          ostracizedAtBlock := blockHeight
          banEndBlock := blockHeight + ostracism.banDurationBlocks })

def isOstracized (ostracism : Ostracism) (address : Bytes) (blockHeight : UInt64) : Bool :=
  match ostracism.records[address]? with
  | none => false
  | some current => current.state = .ostracized && blockHeight < current.banEndBlock

def isNominated (ostracism : Ostracism) (address : Bytes) : Bool :=
  ostracism.records[address]?.any (·.state = .nominated)

/-- A ban that ends at block zero is taken for one without an end. -/
def getActiveBans (ostracism : Ostracism) (blockHeight : UInt64) : List OstracismRecord :=
  (ostracism.records.toList.map Prod.snd).filter fun current =>
    current.state = .ostracized && (current.banEndBlock = 0 || blockHeight < current.banEndBlock)

def rehabilitate (ostracism : Ostracism) (address : Bytes) (blockHeight : UInt64) :
    Bool × Ostracism :=
  match ostracism.records[address]? with
  | none => (false, ostracism)
  | some current =>
      if current.state ≠ .ostracized then (false, ostracism)
      else if blockHeight < current.banEndBlock then (false, ostracism)
      else (true, ostracism.record address { current with state := .rehabilitated })

end Ostracism

inductive OstracismCall
  | nominate (subject nominator reason : Bytes) (blockHeight : UInt64)
  | vote (subject voter : Bytes) (voteToOstracize : Bool)
  | finalize (subject : Bytes) (blockHeight : UInt64)
  | rehabilitate (subject : Bytes) (blockHeight : UInt64)
deriving DecidableEq, Repr

namespace OstracismCall

def subject : OstracismCall → Bytes
  | nominate subject _ _ _ | vote subject _ _ | finalize subject _ | rehabilitate subject _ => subject

def perform (ostracism : Ostracism) : OstracismCall → Bool × Ostracism
  | nominate subject nominator reason blockHeight =>
      ostracism.nominate subject nominator reason blockHeight
  | vote subject voter voteToOstracize => ostracism.vote subject voter voteToOstracize
  | finalize subject blockHeight => ostracism.finalize subject blockHeight
  | rehabilitate subject blockHeight => ostracism.rehabilitate subject blockHeight

end OstracismCall

/-- The votes of a nomination, as calls. -/
def ballots (subject : Bytes) (votes : List (Bytes × Bool)) : List OstracismCall :=
  votes.map fun vote => .vote subject vote.1 vote.2

def inFavour (votes : List (Bytes × Bool)) : Nat := votes.countP (·.2)

/-- Where the calls about a subject that were accepted have led.  Between a nomination and
the next one there are votes of different addresses, a ban that enough of them are in favour
of, and a rehabilitation at its end at the earliest. -/
inductive Course (duration required : UInt64) (subject : Bytes) :
    List OstracismCall → Option (OstracismState × List (Bytes × Bool) × UInt64) → Prop
  | unknown : Course duration required subject [] none
  | nominated {calls : List OstracismCall}
      {standing : Option (OstracismState × List (Bytes × Bool) × UInt64)}
      (before : Course duration required subject calls standing)
      (again : ∀ state votes banEnd, standing = some (state, votes, banEnd) → state = .rehabilitated)
      (nominator reason : Bytes) (blockHeight : UInt64) :
      Course duration required subject (calls ++ [.nominate subject nominator reason blockHeight])
        (some (.nominated, [], 0))
  | voted {calls : List OstracismCall} {votes : List (Bytes × Bool)}
      (before : Course duration required subject calls (some (.nominated, votes, 0)))
      (voter : Bytes) (fresh : voter ∉ votes.map Prod.fst) (voteToOstracize : Bool) :
      Course duration required subject (calls ++ [.vote subject voter voteToOstracize])
        (some (.nominated, votes ++ [(voter, voteToOstracize)], 0))
  | banned {calls : List OstracismCall} {votes : List (Bytes × Bool)}
      (before : Course duration required subject calls (some (.nominated, votes, 0)))
      (enough : required.toNat ≤ inFavour votes) (blockHeight : UInt64) :
      Course duration required subject (calls ++ [.finalize subject blockHeight])
        (some (.ostracized, votes, blockHeight + duration))
  | freed {calls : List OstracismCall} {votes : List (Bytes × Bool)} {banEnd : UInt64}
      (before : Course duration required subject calls (some (.ostracized, votes, banEnd)))
      (blockHeight : UInt64) (ended : banEnd ≤ blockHeight) :
      Course duration required subject (calls ++ [.rehabilitate subject blockHeight])
        (some (.rehabilitated, votes, banEnd))

section Course

variable {duration required : UInt64} {subject : Bytes}

theorem ballots_concat (votes : List (Bytes × Bool)) (vote : Bytes × Bool) :
    ballots subject (votes ++ [vote]) =
      ballots subject votes ++ [.vote subject vote.1 vote.2] := List.map_append

/-- The calls, up to a nomination, that do not bear on what comes of it. -/
def Settled (subject : Bytes) (calls : List OstracismCall) : Prop :=
  ∀ call ∈ calls.getLast?, ∃ blockHeight, call = .rehabilitate subject blockHeight

/-- The calls end with a nomination, its votes, each of another address, and a ban that
enough of them are in favour of. -/
def Banned (required : UInt64) (subject : Bytes) (calls : List OstracismCall)
    (finalizedAt : UInt64) : Prop :=
  ∃ earlier nominator reason nominatedAt votes,
    calls = earlier ++ .nominate subject nominator reason nominatedAt :: ballots subject votes ++
      [.finalize subject finalizedAt] ∧
    Settled subject earlier ∧ (votes.map Prod.fst).Nodup ∧ required.toNat ≤ inFavour votes

/-- The accepted calls end with the latest nomination and what came of it. -/
def Shape (duration required : UInt64) (subject : Bytes) (calls : List OstracismCall) :
    Option (OstracismState × List (Bytes × Bool) × UInt64) → Prop
  | none => calls = []
  | some (.nominated, votes, _) => (votes.map Prod.fst).Nodup ∧
      ∃ earlier nominator reason blockHeight, calls =
        earlier ++ .nominate subject nominator reason blockHeight :: ballots subject votes ∧
        Settled subject earlier
  | some (.ostracized, _, banEnd) => ∃ finalizedAt,
      Banned required subject calls finalizedAt ∧ banEnd = finalizedAt + duration
  | some (.rehabilitated, _, _) => ∃ earlier blockHeight,
      calls = earlier ++ [.rehabilitate subject blockHeight]

theorem Course.shape {calls : List OstracismCall}
    {standing : Option (OstracismState × List (Bytes × Bool) × UInt64)}
    (stands : Course duration required subject calls standing) :
    Shape duration required subject calls standing := by
  induction stands with
  | unknown => rfl
  | @nominated calls standing _ again nominator reason blockHeight ih =>
      refine ⟨List.nodup_nil, calls, nominator, reason, blockHeight, rfl, ?_⟩
      intro call last
      cases standing with
      | none =>
          rw [show calls = [] from ih] at last
          cases last
      | some standing =>
          obtain ⟨state, votes, banEnd⟩ := standing
          obtain rfl := again state votes banEnd rfl
          obtain ⟨earlier, freedAt, rfl⟩ := ih
          rw [List.getLast?_append, List.getLast?_singleton, Option.some_or] at last
          exact ⟨freedAt, (Option.some.inj last).symm⟩
  | voted _ voter fresh voteToOstracize ih =>
      obtain ⟨distinct, earlier, nominator, reason, blockHeight, rfl, settled⟩ := ih
      refine ⟨?_, earlier, nominator, reason, blockHeight, ?_, settled⟩
      · rw [List.map_append, List.map_singleton]
        refine List.nodup_append.mpr ⟨distinct, List.pairwise_singleton _ _, ?_⟩
        intro first member second last same
        rw [same, List.mem_singleton.mp last] at member
        exact fresh member
      · rw [ballots_concat, List.append_assoc, List.cons_append]
  | @banned _ votes _ enough blockHeight ih =>
      obtain ⟨distinct, earlier, nominator, reason, nominatedAt, rfl, settled⟩ := ih
      exact ⟨blockHeight,
        ⟨earlier, nominator, reason, nominatedAt, votes, rfl, settled, distinct, enough⟩, rfl⟩
  | freed _ blockHeight _ _ => exact ⟨_, blockHeight, rfl⟩

/-- A ban that was decided last stands. -/
theorem Course.finalized {calls : List OstracismCall} {finalizedAt : UInt64}
    {standing : Option (OstracismState × List (Bytes × Bool) × UInt64)}
    (stands : Course duration required subject (calls ++ [.finalize subject finalizedAt])
      standing) : ∃ votes, standing = some (.ostracized, votes, finalizedAt + duration) := by
  generalize performed : calls ++ [.finalize subject finalizedAt] = all at stands
  cases stands with
  | unknown => cases List.append_ne_nil_of_right_ne_nil _ (List.cons_ne_nil _ _) performed
  | nominated _ _ _ _ _ => cases (List.append_inj' performed rfl).2
  | voted _ _ _ _ => cases (List.append_inj' performed rfl).2
  | banned _ _ _ =>
      cases (List.append_inj' performed rfl).2
      exact ⟨_, rfl⟩
  | freed _ _ _ => cases (List.append_inj' performed rfl).2

/-- A ban has no end before it is decided. -/
theorem Course.undecided {calls : List OstracismCall} {votes : List (Bytes × Bool)}
    {banEnd : UInt64}
    (stands : Course duration required subject calls (some (.nominated, votes, banEnd))) :
    banEnd = 0 := by
  cases stands <;> rfl

end Course

namespace Ostracism

variable {ostracism : Ostracism} {subject : Bytes}

/-- What is recorded of a subject is where its calls have led. -/
def Reads (ostracism : Ostracism) (subject : Bytes) :
    Option (OstracismState × List (Bytes × Bool) × UInt64) → Prop
  | none => ostracism.records[subject]? = none ∧ ostracism.voters[subject]? = none
  | some (state, votes, banEnd) => ∃ current voted, ostracism.records[subject]? = some current ∧
      ostracism.voters[subject]? = some voted ∧ current.subject = subject ∧
      current.state = state ∧ current.banEndBlock = banEnd ∧
      current.votesFor = UInt64.ofNat (inFavour votes) ∧
      ∀ voter, voter ∈ voted ↔ voter ∈ votes.map Prod.fst

/-- What is accepted writes a record, and at most the voters, of the subject. -/
def Writes (ostracism : Ostracism) (subject : Bytes) (outcome : Bool × Ostracism) : Prop :=
  outcome = (false, ostracism) ∨
    ∃ current voters,
      outcome = (true, { ostracism with records := ostracism.records.insert subject current, voters }) ∧
      (voters = ostracism.voters ∨ ∃ voted, voters = ostracism.voters.insert subject voted)

theorem perform_writes (ostracism : Ostracism) (call : OstracismCall) :
    ostracism.Writes call.subject (call.perform ostracism) := by
  cases call with
  | nominate subject nominator reason blockHeight =>
      change ostracism.Writes subject (ostracism.nominate subject nominator reason blockHeight)
      unfold nominate
      split
      · exact .inl rfl
      · split
        · exact .inl rfl
        · split
          · exact .inl rfl
          · exact .inr ⟨_, _, rfl, .inr ⟨[], rfl⟩⟩
  | vote subject voter voteToOstracize =>
      change ostracism.Writes subject (ostracism.vote subject voter voteToOstracize)
      unfold vote
      split
      · exact .inl rfl
      · split
        · exact .inl rfl
        · split
          · exact .inl rfl
          · exact .inr ⟨_, _, rfl, .inr ⟨_, rfl⟩⟩
  | finalize subject blockHeight =>
      change ostracism.Writes subject (ostracism.finalize subject blockHeight)
      unfold finalize
      split
      · exact .inl rfl
      · split
        · exact .inl rfl
        · split
          · exact .inl rfl
          · exact .inr ⟨_, _, rfl, .inl rfl⟩
  | rehabilitate subject blockHeight =>
      change ostracism.Writes subject (ostracism.rehabilitate subject blockHeight)
      unfold rehabilitate
      split
      · exact .inl rfl
      · split
        · exact .inl rfl
        · split
          · exact .inl rfl
          · exact .inr ⟨_, _, rfl, .inl rfl⟩

/-- What is recorded of others stays. -/
theorem Reads.others {call : OstracismCall}
    {standing : Option (OstracismState × List (Bytes × Bool) × UInt64)}
    (reads : ostracism.Reads subject standing) (differs : call.subject ≠ subject) :
    (call.perform ostracism).2.Reads subject standing := by
  have kept : (call.perform ostracism).2.records[subject]? = ostracism.records[subject]? ∧
      (call.perform ostracism).2.voters[subject]? = ostracism.voters[subject]? := by
    rcases ostracism.perform_writes call with refused | ⟨current, voters, done, same | ⟨voted, same⟩⟩
    · rw [refused]
      exact ⟨rfl, rfl⟩
    · rw [done, same]
      exact ⟨(getElem?_insert_eq _ _ _ _).trans (if_neg differs), rfl⟩
    · rw [done, same]
      exact ⟨(getElem?_insert_eq _ _ _ _).trans (if_neg differs),
        (getElem?_insert_eq _ _ _ _).trans (if_neg differs)⟩
  cases standing with
  | none =>
      rw [Reads, kept.1, kept.2]
      exact reads
  | some standing =>
      obtain ⟨state, votes, banEnd⟩ := standing
      rw [Reads, kept.1, kept.2]
      exact reads

/-- An accepted call is a move of its subject. -/
theorem perform_moves {call : OstracismCall} {calls : List OstracismCall}
    {standing : Option (OstracismState × List (Bytes × Bool) × UInt64)}
    (stands : Course ostracism.banDurationBlocks ostracism.requiredVotesFor call.subject calls
      standing) (reads : ostracism.Reads call.subject standing)
    (accepted : (call.perform ostracism).1 = true) :
    ∃ next, Course ostracism.banDurationBlocks ostracism.requiredVotesFor call.subject
      (calls ++ [call]) next ∧ (call.perform ostracism).2.Reads call.subject next := by
  cases call with
  | nominate subject nominator reason blockHeight =>
      change (ostracism.nominate subject nominator reason blockHeight).1 = true at accepted
      change ∃ next, _ ∧ (ostracism.nominate subject nominator reason blockHeight).2.Reads subject next
      unfold nominate at accepted ⊢
      split at accepted
      · cases accepted
      · rename_i named
        rw [if_neg named]
        split at accepted
        · cases accepted
        · rename_i other
          rw [if_neg other]
          split at accepted
          · cases accepted
          · rename_i free
            rw [if_neg free]
            refine ⟨_, stands.nominated ?_ nominator reason blockHeight, _, [],
              ExtTreeMap.getElem?_insert_self, ExtTreeMap.getElem?_insert_self, rfl, rfl, rfl, rfl,
              fun _ => Iff.rfl⟩
            rintro state votes banEnd rfl
            obtain ⟨current, _, found, _, _, isState, _⟩ := reads
            change ostracism.records[subject]? = some current at found
            rw [found, Option.any_some, decide_eq_true_eq, not_not] at free
            exact isState.symm.trans free
  | vote subject voter voteToOstracize =>
      change (ostracism.vote subject voter voteToOstracize).1 = true at accepted
      change ∃ next, _ ∧ (ostracism.vote subject voter voteToOstracize).2.Reads subject next
      cases standing with
      | none =>
          obtain ⟨absent, _⟩ := reads
          change ostracism.records[subject]? = none at absent
          rw [vote, absent] at accepted
          cases accepted
      | some standing =>
          obtain ⟨state, votes, banEnd⟩ := standing
          obtain ⟨current, voted, found, listed, isSubject, isState, isEnd, counted, members⟩ := reads
          change ostracism.records[subject]? = some current at found
          change ostracism.voters[subject]? = some voted at listed
          unfold vote at accepted ⊢
          rw [found] at accepted ⊢
          dsimp only at accepted ⊢
          split at accepted
          · cases accepted
          · rename_i isNominated
            rw [if_neg isNominated]
            rw [ne_eq, not_not] at isNominated
            split at accepted
            · cases accepted
            · rename_i fresh
              rw [if_neg fresh]
              rw [hasVoted, listed, decide_eq_true_eq, members] at fresh
              rw [← isState, isNominated] at stands
              obtain rfl : banEnd = 0 := stands.undecided
              refine ⟨_, stands.voted voter fresh voteToOstracize, _, voter :: voted,
                ExtTreeMap.getElem?_insert_self, ?_, ?_, ?_, ?_, ?_, ?_⟩
              · rw [ExtTreeMap.getD_eq_getD_getElem?, listed]
                exact ExtTreeMap.getElem?_insert_self
              · split <;> exact isSubject
              · split <;> exact isNominated
              · split <;> exact isEnd
              · rw [inFavour, List.countP_append, UInt64.ofNat_add, ← inFavour, ← counted]
                cases voteToOstracize with
                | false => exact (UInt64.add_zero _).symm
                | true => rfl
              · intro other
                rw [List.mem_cons, List.map_append, List.mem_append, members, or_comm,
                  List.map_singleton, List.mem_singleton]
  | finalize subject blockHeight =>
      change (ostracism.finalize subject blockHeight).1 = true at accepted
      change ∃ next, _ ∧ (ostracism.finalize subject blockHeight).2.Reads subject next
      cases standing with
      | none =>
          obtain ⟨absent, _⟩ := reads
          change ostracism.records[subject]? = none at absent
          rw [finalize, absent] at accepted
          cases accepted
      | some standing =>
          obtain ⟨state, votes, banEnd⟩ := standing
          obtain ⟨current, voted, found, listed, isSubject, isState, isEnd, counted, members⟩ := reads
          change ostracism.records[subject]? = some current at found
          unfold finalize at accepted ⊢
          rw [found] at accepted ⊢
          dsimp only at accepted ⊢
          split at accepted
          · cases accepted
          · rename_i isNominated
            rw [if_neg isNominated]
            rw [ne_eq, not_not] at isNominated
            split at accepted
            · cases accepted
            · rename_i enough
              rw [if_neg enough]
              rw [← isState, isNominated] at stands
              obtain rfl : banEnd = 0 := stands.undecided
              have majority : ostracism.requiredVotesFor.toNat ≤ inFavour votes := by
                rw [counted, UInt64.not_lt, UInt64.le_iff_toNat_le, UInt64.toNat_ofNat'] at enough
                exact enough.trans (Nat.mod_le _ _)
              exact ⟨_, stands.banned majority blockHeight, _, voted,
                ExtTreeMap.getElem?_insert_self, listed, isSubject, rfl, rfl, counted, members⟩
  | rehabilitate subject blockHeight =>
      change (ostracism.rehabilitate subject blockHeight).1 = true at accepted
      change ∃ next, _ ∧ (ostracism.rehabilitate subject blockHeight).2.Reads subject next
      cases standing with
      | none =>
          obtain ⟨absent, _⟩ := reads
          change ostracism.records[subject]? = none at absent
          rw [rehabilitate, absent] at accepted
          cases accepted
      | some standing =>
          obtain ⟨state, votes, banEnd⟩ := standing
          obtain ⟨current, voted, found, listed, isSubject, isState, isEnd, counted, members⟩ := reads
          change ostracism.records[subject]? = some current at found
          unfold rehabilitate at accepted ⊢
          rw [found] at accepted ⊢
          dsimp only at accepted ⊢
          split at accepted
          · cases accepted
          · rename_i isBanned
            rw [if_neg isBanned]
            rw [ne_eq, not_not] at isBanned
            split at accepted
            · cases accepted
            · rename_i ended
              rw [if_neg ended]
              rw [← isState, isBanned] at stands
              exact ⟨_, stands.freed blockHeight (isEnd ▸ UInt64.not_lt.mp ended), _, voted,
                ExtTreeMap.getElem?_insert_self, listed, isSubject, rfl, isEnd, counted, members⟩

theorem isOstracized_iff {address : Bytes} {blockHeight : UInt64} :
    ostracism.isOstracized address blockHeight = true ↔
      ∃ current, ostracism.records[address]? = some current ∧ current.state = .ostracized ∧
        blockHeight < current.banEndBlock := by
  rw [isOstracized]
  cases ostracism.records[address]? with
  | none => simp
  | some current => simp

theorem mem_getActiveBans {blockHeight : UInt64} {current : OstracismRecord} :
    current ∈ ostracism.getActiveBans blockHeight ↔
      ∃ address : Bytes, ostracism.records[address]? = some current ∧
        current.state = .ostracized ∧
        (current.banEndBlock = 0 ∨ blockHeight < current.banEndBlock) := by
  rw [getActiveBans, List.mem_filter, List.mem_map]
  simp [ExtTreeMap.mem_toList_iff_getElem?_eq_some]

theorem rehabilitate_iff {address : Bytes} {blockHeight : UInt64} :
    (ostracism.rehabilitate address blockHeight).1 = true ↔
      ∃ current, ostracism.records[address]? = some current ∧ current.state = .ostracized ∧
        current.banEndBlock ≤ blockHeight := by
  rw [rehabilitate]
  cases ostracism.records[address]? with
  | none => simp
  | some current =>
      simp only [Option.some.injEq, exists_eq_left']
      split
      · simp_all
      · rename_i isBanned
        rw [ne_eq, not_not] at isBanned
        split
        · rename_i early
          simp [isBanned, early]
        · rename_i ended
          simp [isBanned, UInt64.not_lt.mp ended]

end Ostracism

/-- The system with the calls that it has accepted. -/
structure OstracismHistory where
  ostracism : Ostracism
  accepted : List OstracismCall

namespace OstracismHistory

def start (banDurationBlocks requiredVotesFor : UInt64) : OstracismHistory :=
  { ostracism := .new banDurationBlocks requiredVotesFor, accepted := [] }

def after (history : OstracismHistory) (call : OstracismCall) : OstracismHistory where
  ostracism := (call.perform history.ostracism).2
  accepted := history.accepted ++ if (call.perform history.ostracism).1 then [call] else []

/-- The accepted calls about a subject. -/
def about (history : OstracismHistory) (subject : Bytes) : List OstracismCall :=
  history.accepted.filter (·.subject = subject)

def Kept (duration required : UInt64) (history : OstracismHistory) : Prop :=
  history.ostracism.banDurationBlocks = duration ∧ history.ostracism.requiredVotesFor = required ∧
    ∀ subject, ∃ standing, Course duration required subject (history.about subject) standing ∧
      history.ostracism.Reads subject standing

theorem Kept.after {duration required : UInt64} {history : OstracismHistory}
    (kept : history.Kept duration required) (call : OstracismCall) :
    (history.after call).Kept duration required := by
  obtain ⟨rfl, rfl, stands⟩ := kept
  have settings : (history.after call).ostracism.banDurationBlocks =
      history.ostracism.banDurationBlocks ∧
      (history.after call).ostracism.requiredVotesFor = history.ostracism.requiredVotesFor := by
    rw [OstracismHistory.after]
    rcases history.ostracism.perform_writes call with refused | ⟨current, voters, done, _⟩
    · rw [refused]
      exact ⟨rfl, rfl⟩
    · rw [done]
      exact ⟨rfl, rfl⟩
  refine ⟨settings.1, settings.2, fun subject => ?_⟩
  obtain ⟨standing, stand, reads⟩ := stands subject
  rw [about, OstracismHistory.after, List.filter_append, ← about]
  by_cases own : call.subject = subject
  · subst own
    rcases history.ostracism.perform_writes call with refused | ⟨current, voters, done, _⟩
    · rw [refused, if_neg Bool.false_ne_true, List.filter_nil, List.append_nil]
      exact ⟨standing, stand, reads⟩
    · have accepted : (call.perform history.ostracism).1 = true := by rw [done]
      rw [if_pos accepted, List.filter_singleton, decide_eq_true rfl, cond_true]
      exact Ostracism.perform_moves stand reads accepted
  · have unseen : (if (call.perform history.ostracism).1 then [call] else []).filter
        (·.subject = subject) = [] := by
      split
      · rw [List.filter_singleton, decide_eq_false own, cond_false]
      · rfl
    rw [unseen, List.append_nil]
    exact ⟨standing, stand, reads.others own⟩

theorem run_kept (duration required : UInt64) (calls : List OstracismCall) :
    (calls.foldl after (start duration required)).Kept duration required := by
  induction calls using List.reverseRecOn with
  | nil =>
      exact ⟨rfl, rfl, fun subject =>
        ⟨none, .unknown, ExtTreeMap.getElem?_empty, ExtTreeMap.getElem?_empty⟩⟩
  | append_singleton calls call ih =>
      rw [List.foldl_append]
      exact ih.after call

/-- An address is recorded as ostracized when the calls about it say so. -/
theorem Kept.ostracized_iff {duration required : UInt64} {history : OstracismHistory}
    (kept : history.Kept duration required) (address : Bytes) (ends : UInt64 → Prop) :
    (∃ current, history.ostracism.records[address]? = some current ∧
      current.state = .ostracized ∧ ends current.banEndBlock) ↔
      ∃ finalizedAt, Banned required address (history.about address) finalizedAt ∧
        ends (finalizedAt + duration) := by
  obtain ⟨standing, stand, reads⟩ := kept.2.2 address
  constructor
  · rintro ⟨current, found, isState, ended⟩
    cases standing with
    | none => cases found.symm.trans reads.1
    | some standing =>
        obtain ⟨state, votes, banEnd⟩ := standing
        obtain ⟨current', voted, found', _, _, rfl, rfl, _⟩ := reads
        obtain rfl := Option.some.inj (found.symm.trans found')
        have shape := stand.shape
        rw [isState] at shape
        obtain ⟨finalizedAt, banned, ending⟩ := shape
        exact ⟨finalizedAt, banned, ending ▸ ended⟩
  · rintro ⟨finalizedAt, ⟨earlier, nominator, reason, nominatedAt, votes, performed, _⟩, ended⟩
    rw [performed] at stand
    obtain ⟨votes, rfl⟩ := stand.finalized
    obtain ⟨current, voted, found, _, _, isState, isEnd, _⟩ := reads
    exact ⟨current, found, isState, isEnd ▸ ended⟩

theorem Kept.subject_eq {duration required : UInt64} {history : OstracismHistory}
    (kept : history.Kept duration required) {address : Bytes} {current : OstracismRecord}
    (found : history.ostracism.records[address]? = some current) : current.subject = address := by
  obtain ⟨standing, _, reads⟩ := kept.2.2 address
  cases standing with
  | none => cases found.symm.trans reads.1
  | some standing =>
      obtain ⟨current', _, found', _, isSubject, _⟩ := reads
      rwa [Option.some.inj (found.symm.trans found')]

/-- Who is banned, who is listed as banned and who may be rehabilitated follows from the
accepted calls.  A ban whose end wraps to zero is over at once, and is listed nonetheless. -/
theorem run_bans (duration required : UInt64) (calls : List OstracismCall) (address : Bytes)
    (blockHeight : UInt64) :
    let history := calls.foldl after (start duration required)
    let banned := Banned required address (history.about address)
    (history.ostracism.isOstracized address blockHeight = true ↔
      ∃ finalizedAt, banned finalizedAt ∧ blockHeight < finalizedAt + duration) ∧
    ((∃ current ∈ history.ostracism.getActiveBans blockHeight, current.subject = address) ↔
      ∃ finalizedAt, banned finalizedAt ∧
        (finalizedAt + duration = 0 ∨ blockHeight < finalizedAt + duration)) ∧
    ((history.ostracism.rehabilitate address blockHeight).1 = true ↔
      ∃ finalizedAt, banned finalizedAt ∧ finalizedAt + duration ≤ blockHeight) := by
  intro history banned
  have kept : history.Kept duration required := run_kept duration required calls
  refine ⟨?_, ?_, ?_⟩
  · rw [Ostracism.isOstracized_iff]
    exact kept.ostracized_iff address (blockHeight < ·)
  · rw [← kept.ostracized_iff address fun ends => ends = 0 ∨ blockHeight < ends]
    constructor
    · rintro ⟨current, listed, rfl⟩
      obtain ⟨key, found, active⟩ := Ostracism.mem_getActiveBans.mp listed
      obtain rfl := kept.subject_eq found
      exact ⟨current, found, active⟩
    · rintro ⟨current, found, active⟩
      exact ⟨current, Ostracism.mem_getActiveBans.mpr ⟨address, found, active⟩,
        kept.subject_eq found⟩
  · rw [Ostracism.rehabilitate_iff]
    exact kept.ostracized_iff address (· ≤ blockHeight)

end OstracismHistory

end Parthenon.Governance
