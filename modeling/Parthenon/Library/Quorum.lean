import Mathlib.Data.Finset.Card
import Mathlib.Data.Finset.Dedup
import Parthenon.Library.Numbering
import Parthenon.Library.Runs

namespace Parthenon.Library

/-! # Quorums of changing members

Members sign petitions while the membership changes.  A petition is executed once
its signatures are enough without those of members who have left, so a quorum of
the members of that moment has signed it.  An id may be used again; the minutes
number the petitions in the order they were opened.
-/

variable {κ : Type u} {α : Type v}

structure Petition (α : Type v) where
  signers : Finset α
  executed : Bool

/-- An execution with the signatures it needed and the members of that moment who had
signed the petition. -/
structure Execution (α : Type v) where
  number : Nat
  required : Nat
  signatories : Finset α

/-- Every signature and every execution there was. -/
structure Minutes (κ : Type u) (α : Type v) where
  number : κ → Nat
  opened : Nat
  signed : List (Nat × α)
  executions : List (Execution α)

namespace Minutes

def start : Minutes κ α := ⟨fun _ => 0, 0, [], []⟩

variable [DecidableEq κ] [DecidableEq α] (minutes : Minutes κ α)

/-- Opening a petition signs it. -/
def propose (id : κ) (initiator : α) : Minutes κ α :=
  { minutes with
    number := Function.update minutes.number id minutes.opened
    opened := minutes.opened + 1
    signed := (minutes.opened, initiator) :: minutes.signed }

def sign (id : κ) (signer : α) : Minutes κ α :=
  { minutes with signed := (minutes.number id, signer) :: minutes.signed }

def execute (id : κ) (required : Nat) (members : Finset α) : Minutes κ α :=
  { minutes with
    executions :=
      { number := minutes.number id
        required
        signatories := members.filter fun member => (minutes.number id, member) ∈ minutes.signed } ::
      minutes.executions }

/-- Each petition was executed once at most, after enough of the members of that moment
had signed it. -/
structure Quorate : Prop where
  once : (minutes.executions.map Execution.number).Nodup
  quorum : ∀ execution ∈ minutes.executions, execution.required ≤ execution.signatories.card

instance : Decidable minutes.Quorate :=
  decidable_of_iff (_ ∧ _) ⟨fun both => ⟨both.1, both.2⟩, fun quorate => ⟨quorate.1, quorate.2⟩⟩

end Minutes

/-- The members and the petitions of now. -/
structure Gathering (κ : Type u) (α : Type v) where
  members : Finset α
  petitions : κ → Option (Petition α)
  minutes : Minutes κ α

namespace Gathering

variable [DecidableEq κ] [DecidableEq α]

def start (members : Finset α) : Gathering κ α := ⟨members, fun _ => none, .start⟩

/-- Only a member opens a petition, and only a member signs one that is not executed. -/
inductive Step (gathering : Gathering κ α) : Gathering κ α → Prop
  | idle : Step gathering gathering
  | change (members : Finset α) : Step gathering { gathering with members }
  | propose (id : κ) {initiator : α} (member : initiator ∈ gathering.members) :
      Step gathering
        { gathering with
          petitions := Function.update gathering.petitions id (some ⟨{initiator}, false⟩)
          minutes := gathering.minutes.propose id initiator }
  | sign {id : κ} {petition : Petition α} {signer : α} (member : signer ∈ gathering.members)
      (found : gathering.petitions id = some petition) (pending : petition.executed = false) :
      Step gathering
        { gathering with
          petitions := Function.update gathering.petitions id
            (some { petition with signers := insert signer petition.signers })
          minutes := gathering.minutes.sign id signer }
  | execute {id : κ} {petition : Petition α} {required : Nat}
      (found : gathering.petitions id = some petition) (pending : petition.executed = false)
      (enough : required + (petition.signers \ gathering.members).card ≤ petition.signers.card) :
      Step gathering
        { gathering with
          petitions := Function.update gathering.petitions id
            (some { petition with executed := true })
          minutes := gathering.minutes.execute id required gathering.members }

/-- The petitions agree with the minutes. -/
structure Recorded (gathering : Gathering κ α) : Prop where
  quorate : gathering.minutes.Quorate
  numbered : Numbered gathering.petitions gathering.minutes.number gathering.minutes.opened
  signatures : ∀ id petition, gathering.petitions id = some petition →
    ∀ signer ∈ petition.signers, (gathering.minutes.number id, signer) ∈ gathering.minutes.signed
  past : ∀ execution ∈ gathering.minutes.executions,
    execution.number < gathering.minutes.opened ∧
      ∀ id petition, gathering.petitions id = some petition →
        gathering.minutes.number id = execution.number → petition.executed = true

omit [DecidableEq κ] [DecidableEq α] in
theorem start_recorded (members : Finset α) : (start members : Gathering κ α).Recorded where
  quorate := ⟨List.nodup_nil, nofun⟩
  numbered := ⟨nofun, nofun⟩
  signatures := nofun
  past := nofun

variable {gathering after : Gathering κ α}

omit [DecidableEq α] in
theorem propose_recorded (recorded : gathering.Recorded) (id : κ) (initiator : α) :
    Recorded
      { gathering with
        petitions := Function.update gathering.petitions id (some ⟨{initiator}, false⟩)
        minutes := gathering.minutes.propose id initiator } where
  quorate := ⟨recorded.quorate.once, recorded.quorate.quorum⟩
  numbered := recorded.numbered.open_ id _
  signatures := by
    intro other kept written signer signs
    simp only [Minutes.propose]
    rcases update_cases written with ⟨rfl, rfl⟩ | ⟨differs, there⟩
    · rw [Function.update_self, Finset.mem_singleton.mp signs]
      exact List.mem_cons_self
    · rw [Function.update_of_ne differs]
      exact List.mem_cons_of_mem _ (recorded.signatures other kept there signer signs)
  past := by
    intro execution listed
    obtain ⟨before, done⟩ := recorded.past execution listed
    refine ⟨Nat.lt_succ_of_lt before, ?_⟩
    intro other kept written same
    simp only [Minutes.propose] at same
    rcases update_cases written with ⟨rfl, -⟩ | ⟨differs, there⟩
    · rw [Function.update_self] at same
      omega
    · rw [Function.update_of_ne differs] at same
      exact done other kept there same

theorem sign_recorded (recorded : gathering.Recorded) {id : κ} {petition : Petition α}
    (found : gathering.petitions id = some petition) (signer : α) :
    Recorded
      { gathering with
        petitions := Function.update gathering.petitions id
          (some { petition with signers := insert signer petition.signers })
        minutes := gathering.minutes.sign id signer } where
  quorate := ⟨recorded.quorate.once, recorded.quorate.quorum⟩
  numbered := recorded.numbered.write found _
  signatures := by
    intro other kept written signer' signs
    rcases update_cases written with ⟨rfl, rfl⟩ | ⟨-, there⟩
    · rcases Finset.mem_insert.mp signs with rfl | earlier
      · exact List.mem_cons_self
      · exact List.mem_cons_of_mem _ (recorded.signatures other petition found signer' earlier)
    · exact List.mem_cons_of_mem _ (recorded.signatures other kept there signer' signs)
  past := by
    intro execution listed
    obtain ⟨before, done⟩ := recorded.past execution listed
    refine ⟨before, ?_⟩
    intro other kept written same
    rcases update_cases written with ⟨rfl, rfl⟩ | ⟨-, there⟩
    · exact done other petition found same
    · exact done other kept there same

theorem execute_recorded (recorded : gathering.Recorded) {id : κ} {petition : Petition α}
    {required : Nat} (found : gathering.petitions id = some petition)
    (pending : petition.executed = false)
    (enough : required + (petition.signers \ gathering.members).card ≤ petition.signers.card) :
    Recorded
      { gathering with
        petitions := Function.update gathering.petitions id (some { petition with executed := true })
        minutes := gathering.minutes.execute id required gathering.members } where
  quorate := by
    constructor
    · apply List.nodup_cons.mpr
      refine ⟨?_, recorded.quorate.once⟩
      intro again
      obtain ⟨execution, listed, same⟩ := List.mem_map.mp again
      have done := (recorded.past execution listed).2 id petition found same.symm
      rw [pending] at done
      cases done
    · intro execution listed
      rcases List.mem_cons.mp listed with rfl | earlier
      · -- the signers who are members still are all signers but those who left
        have split := Finset.card_sdiff_add_card_inter petition.signers gathering.members
        have signing : petition.signers ∩ gathering.members ⊆ gathering.members.filter
            fun member => (gathering.minutes.number id, member) ∈ gathering.minutes.signed := by
          intro signer both
          obtain ⟨signs, isMember⟩ := Finset.mem_inter.mp both
          exact Finset.mem_filter.mpr ⟨isMember, recorded.signatures id petition found signer signs⟩
        have counted := Finset.card_le_card signing
        dsimp only
        omega
      · exact recorded.quorate.quorum execution earlier
  numbered := recorded.numbered.write found _
  signatures := by
    intro other kept written signer signs
    rcases update_cases written with ⟨rfl, rfl⟩ | ⟨-, there⟩
    · exact recorded.signatures other petition found signer signs
    · exact recorded.signatures other kept there signer signs
  past := by
    intro execution listed
    rcases List.mem_cons.mp listed with rfl | earlier
    · refine ⟨recorded.numbered.below id petition found, ?_⟩
      intro other kept written same
      rcases update_cases written with ⟨-, rfl⟩ | ⟨differs, there⟩
      · rfl
      · exact absurd (recorded.numbered.distinct other kept id petition there found same) differs
    · obtain ⟨before, done⟩ := recorded.past execution earlier
      refine ⟨before, ?_⟩
      intro other kept written same
      rcases update_cases written with ⟨-, rfl⟩ | ⟨-, there⟩
      · rfl
      · exact done other kept there same

theorem step_recorded (step : Step gathering after) (recorded : gathering.Recorded) :
    after.Recorded := by
  cases step with
  | idle => exact recorded
  | change members =>
      exact ⟨recorded.quorate, recorded.numbered, recorded.signatures, recorded.past⟩
  | propose id member => exact propose_recorded recorded id _
  | sign member found pending => exact sign_recorded recorded found _
  | execute found pending enough => exact execute_recorded recorded found pending enough

end Gathering

/-! ## Repeated votes -/

variable [DecidableEq α]

/-- How many entries of a list come again later in it. -/
def repeats : List α → Nat
  | [] => 0
  | value :: rest => (if value ∈ rest then 1 else 0) + repeats rest

/-- An entry counts as a repetition or as a new value. -/
theorem repeats_add_card (values : List α) :
    repeats values + values.toFinset.card = values.length := by
  induction values with
  | nil => rfl
  | cons value rest ih =>
      rw [repeats, List.toFinset_cons, List.length_cons]
      by_cases again : value ∈ rest
      · rw [if_pos again, Finset.insert_eq_of_mem (List.mem_toFinset.mpr again)]
        omega
      · rw [if_neg again, Finset.card_insert_of_notMem (fun member =>
          again (List.mem_toFinset.mp member))]
        omega

end Parthenon.Library
