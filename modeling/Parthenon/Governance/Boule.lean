import Parthenon.Crypto.Sha256
import Parthenon.Library.OrderedMap

namespace Parthenon.Governance

open Library Crypto Std

/-! # Boule

A council drawn by lot from registered citizens.  It reviews proposals, and its
members may challenge a proposal as unlawful.
-/

structure Citizen where
  address : Bytes
  registeredAtBlock : UInt64
  stakeAmount : UInt64
  isEligible : Bool
deriving DecidableEq, Repr

structure CouncilMember where
  address : Bytes
  selectedAtBlock : UInt64
  termEndBlock : UInt64
  selectionIndex : UInt32
deriving DecidableEq, Repr

structure ProposalReview where
  proposalId : UInt64
  reviewer : Bytes
  approved : Bool
  rationale : String
  reviewedAtBlock : UInt64
deriving DecidableEq, Repr

structure GrapheParanomon where
  proposalId : UInt64
  challenger : Bytes
  grounds : String
  raisedAtBlock : UInt64
  resolved : Bool
  upheld : Bool
  dismissVotes : UInt64
  upholdVotes : UInt64
deriving DecidableEq, Repr

structure Boule where
  councilSize : UInt32
  termBlocks : UInt64
  minStake : UInt64
  screeningRequired : Bool
  citizens : List Citizen
  council : List CouncilMember
  reviews : ExtTreeMap UInt64 (List ProposalReview) compare
  challenges : ExtTreeMap UInt64 GrapheParanomon compare

namespace Boule

def new (councilSize : UInt32) (termBlocks minStake : UInt64) (screeningRequired : Bool) : Boule where
  councilSize := councilSize
  termBlocks := termBlocks
  minStake := minStake
  screeningRequired := screeningRequired
  citizens := []
  council := []
  reviews := ∅
  challenges := ∅

def isCitizenRegistered (boule : Boule) (address : Bytes) : Bool :=
  boule.citizens.any (·.address == address)

def isCouncilMember (boule : Boule) (address : Bytes) : Bool :=
  boule.council.any (·.address == address)

def registerCitizen (boule : Boule) (address : Bytes) (stakeAmount blockHeight : UInt64) :
    Bool × Boule :=
  if address.isEmpty then (false, boule)
  else if stakeAmount < boule.minStake then (false, boule)
  else if boule.isCitizenRegistered address then (false, boule)
  else
    (true, { boule with citizens := boule.citizens ++ [⟨address, blockHeight, stakeAmount, true⟩] })

/-- The first citizen with the address is changed. -/
def changeEligibility (address : Bytes) (eligible : Bool) : List Citizen → List Citizen
  | [] => []
  | citizen :: rest =>
      if citizen.address = address then { citizen with isEligible := eligible } :: rest
      else citizen :: changeEligibility address eligible rest

def setCitizenEligibility (boule : Boule) (address : Bytes) (eligible : Bool) : Bool × Boule :=
  if boule.isCitizenRegistered address then
    (true, { boule with citizens := changeEligibility address eligible boule.citizens })
  else (false, boule)

/-! ## Sortition -/

/-- One draw: the first four bytes of a hash of the seed, the height and a counter. -/
def vrf (seed : Bytes) (blockHeight counter : UInt64) : UInt32 :=
  let hash := SHA256.hash256
    (seed ++ littleEndian 8 blockHeight.toNat ++ littleEndian 8 counter.toNat)
  UInt32.ofNat (ofLittleEndian (hash.bytes.take 4))

/-- The elements at two places change places. -/
def swap (eligible : List Citizen) (i j : Nat) : List Citizen :=
  match eligible[i]?, eligible[j]? with
  | some first, some second => (eligible.set i second).set j first
  | _, _ => eligible

/-- The shuffle, from the last place down to the second.  `none` is a remainder by zero,
when the number of places is zero on 32 bits. -/
def shuffle (seed : Bytes) (blockHeight : UInt64) : Nat → UInt64 → List Citizen → Option (List Citizen)
  | 0, _, eligible => some eligible
  | i + 1, counter, eligible =>
      let places := UInt32.ofNat (i + 2)
      if places = 0 then none
      else
        let j := (vrf seed blockHeight counter % places).toNat
        shuffle seed blockHeight i (counter + 1) (swap eligible (i + 1) j)

/-- The members of a council in the order they were drawn. -/
def seat (boule : Boule) (drawn : List Citizen) (blockHeight : UInt64) : List CouncilMember :=
  (drawn.take boule.councilSize.toNat).mapIdx fun index citizen =>
    ⟨citizen.address, blockHeight, blockHeight + boule.termBlocks, UInt32.ofNat index⟩

/-- `none` when the shuffle of the source has no meaning: with nobody eligible its first
place is number 2^64 - 1, and the remainder is one by zero. -/
def conductSortition (boule : Boule) (seed : Bytes) (blockHeight : UInt64) : Option (Bool × Boule) :=
  if seed.length < 4 then some (false, boule)
  else
    let eligible := boule.citizens.filter (·.isEligible)
    if eligible.length < boule.councilSize.toNat then some (false, boule)
    else if eligible = [] then none
    else do
      let drawn ← shuffle seed blockHeight (eligible.length - 1) 0 eligible
      some (true, { boule with council := boule.seat drawn blockHeight })

/-! ## Screening -/

def getProposalReviews (boule : Boule) (proposalId : UInt64) : List ProposalReview :=
  boule.reviews.getD proposalId []

/-- A review by someone who has reviewed the proposal before is refused.  The list of
the proposal is made in any case. -/
def reviewProposal (boule : Boule) (proposalId : UInt64) (councilMember : Bytes) (approved : Bool)
    (rationale : String) (blockHeight : UInt64) : Bool × Boule :=
  if !boule.isCouncilMember councilMember then (false, boule)
  else
    let revList := boule.getProposalReviews proposalId
    if revList.any (·.reviewer == councilMember) then
      (false, { boule with reviews := boule.reviews.insert proposalId revList })
    else
      (true,
        { boule with
          reviews := boule.reviews.insert proposalId
            (revList ++ [⟨proposalId, councilMember, approved, rationale, blockHeight⟩]) })

def hasActiveChallenge (boule : Boule) (proposalId : UInt64) : Bool :=
  match boule.challenges[proposalId]? with
  | none => false
  | some challenge => !challenge.resolved

/-- Two thirds of the council size, rounded up. -/
def requiredApprovals (boule : Boule) : UInt64 := (boule.councilSize.toUInt64 * 2 + 2) / 3

def approveCount (revList : List ProposalReview) : UInt64 :=
  revList.foldl (fun count review => if review.approved then count + 1 else count) 0

/-- All reviews count, whoever is on the council now. -/
def isProposalApproved (boule : Boule) (proposalId : UInt64) : Bool :=
  if !boule.screeningRequired then true
  else if boule.hasActiveChallenge proposalId then false
  else match boule.reviews[proposalId]? with
  | none => false
  | some revList =>
      if boule.council.isEmpty then false
      else approveCount revList ≥ boule.requiredApprovals

/-! ## Graphe paranomon -/

/-- The challenge that `RaiseGrapheParanomon` stores. -/
def newChallenge (proposalId : UInt64) (challenger : Bytes) (grounds : String)
    (blockHeight : UInt64) : GrapheParanomon where
  proposalId := proposalId
  challenger := challenger
  grounds := grounds
  raisedAtBlock := blockHeight
  resolved := false
  upheld := false
  dismissVotes := 0
  upholdVotes := 0

/-- A challenge that is resolved may be replaced. -/
def raiseGrapheParanomon (boule : Boule) (proposalId : UInt64) (challenger : Bytes)
    (grounds : String) (blockHeight : UInt64) : Bool × Boule :=
  if !boule.isCouncilMember challenger then (false, boule)
  else if boule.hasActiveChallenge proposalId then (false, boule)
  else
    (true,
      { boule with
        challenges := boule.challenges.insert proposalId
          (newChallenge proposalId challenger grounds blockHeight) })

def majority (boule : Boule) : UInt64 := boule.councilSize.toUInt64 / 2 + 1

end Boule

namespace GrapheParanomon

def addVote (challenge : GrapheParanomon) (dismiss : Bool) : GrapheParanomon :=
  if dismiss then { challenge with dismissVotes := challenge.dismissVotes + 1 }
  else { challenge with upholdVotes := challenge.upholdVotes + 1 }

/-- The challenge with one more vote, resolved if that is a majority. -/
def vote (challenge : GrapheParanomon) (dismiss : Bool) (majority : UInt64) : GrapheParanomon :=
  let counted := challenge.addVote dismiss
  if counted.dismissVotes ≥ majority then { counted with resolved := true, upheld := false }
  else if counted.upholdVotes ≥ majority then { counted with resolved := true, upheld := true }
  else counted

end GrapheParanomon

namespace Boule

/-- Nobody is asked whether they have voted before. -/
def voteOnGrapheParanomon (boule : Boule) (proposalId : UInt64) (councilMember : Bytes)
    (dismiss : Bool) : Bool × Boule :=
  if !boule.isCouncilMember councilMember then (false, boule)
  else match boule.challenges[proposalId]? with
  | none => (false, boule)
  | some challenge =>
      if challenge.resolved then (false, boule)
      else
        (true,
          { boule with
            challenges := boule.challenges.insert proposalId (challenge.vote dismiss boule.majority) })

end Boule

end Parthenon.Governance
