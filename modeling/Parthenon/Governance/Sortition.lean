import Parthenon.Governance.BouleLaws
import Parthenon.Library.Shuffle

namespace Parthenon.Governance

open Library Std

/-! # Sortition

The shuffle of the source works on places in the registry.  Here it is with every access and
every remainder checked, and it agrees with the shuffle of the citizens themselves.
-/

namespace Boule

/-- The place that a place is exchanged with.  `none` is a remainder by zero. -/
def drawPlace (seed : Bytes) (blockHeight counter : UInt64) (place : Nat) : Option (Nat × UInt64) :=
  let places := UInt32.ofNat (place + 1)
  if places = 0 then none
  else some ((vrf seed blockHeight counter % places).toNat, counter + 1)

/-- The places of the eligible citizens, of those from `start` on. -/
def eligiblePlaces (start : Nat) : List Citizen → List Nat
  | [] => []
  | citizen :: rest =>
      if citizen.isEligible then start :: eligiblePlaces (start + 1) rest
      else eligiblePlaces (start + 1) rest

/-- The first `count` places of a draw take their seats. -/
def seatPlaces (boule : Boule) (drawn : List Nat) (blockHeight : UInt64) (count : Nat) :
    Option (List CouncilMember) :=
  (List.range count).foldlM (fun council index => do
    let place ← drawn[index]?
    let citizen ← boule.citizens[place]?
    some (council ++
      [⟨citizen.address, blockHeight, blockHeight + boule.termBlocks, UInt32.ofNat index⟩])) []

/-- The sortition on places.  `none` is an access out of range or a remainder by zero. -/
def conductSortitionOnPlaces (boule : Boule) (seed : Bytes) (blockHeight : UInt64) :
    Option (Bool × Boule) :=
  if seed.length < 4 then some (false, boule)
  else
    let eligible := eligiblePlaces 0 boule.citizens
    if eligible.length < boule.councilSize.toNat then some (false, boule)
    else do
      -- one less than no places is the largest `size_t`
      let last := if eligible.length = 0 then 2 ^ 64 - 1 else eligible.length - 1
      let drawn ← shuffleDown (drawPlace seed blockHeight) last 0 eligible
      let council ← boule.seatPlaces drawn blockHeight boule.councilSize.toNat
      some (true, { boule with council })

/-! ## Places and citizens -/

section Places

variable {seed : Bytes} {blockHeight : UInt64}

theorem drawPlace_cases (seed : Bytes) (blockHeight counter : UInt64) (place : Nat) :
    UInt32.ofNat (place + 1) = 0 ∧ drawPlace seed blockHeight counter place = none ∨
    UInt32.ofNat (place + 1) ≠ 0 ∧
      drawPlace seed blockHeight counter place =
        some ((vrf seed blockHeight counter % UInt32.ofNat (place + 1)).toNat, counter + 1) := by
  unfold drawPlace
  by_cases zero : UInt32.ofNat (place + 1) = 0
  · exact .inl ⟨zero, if_pos zero⟩
  · exact .inr ⟨zero, if_neg zero⟩

theorem places_eq_zero_iff {place : Nat} : UInt32.ofNat (place + 1) = 0 ↔ 2 ^ 32 ∣ place + 1 := by
  rw [← UInt32.toNat_inj, UInt32.toNat_ofNat', UInt32.toNat_zero, Nat.dvd_iff_mod_eq_zero]

/-- A place is exchanged with itself or with one before it. -/
theorem remainder_le (draw : UInt32) {place : Nat} (positive : UInt32.ofNat (place + 1) ≠ 0) :
    (draw % UInt32.ofNat (place + 1)).toNat ≤ place := by
  have below : (UInt32.ofNat (place + 1)).toNat ≤ place + 1 := by
    rw [UInt32.toNat_ofNat']
    exact Nat.mod_le _ _
  have modulus : 0 < (UInt32.ofNat (place + 1)).toNat :=
    Nat.pos_of_ne_zero fun zero => positive (UInt32.toNat_inj.mp zero)
  rw [UInt32.toNat_mod]
  exact Nat.le_of_lt_succ (Nat.lt_of_lt_of_le (Nat.mod_lt _ modulus) below)

/-- Where the places do not count on 32 bits there is no draw. -/
theorem drawPlace_wraps {place : Nat} (divides : 2 ^ 32 ∣ place + 1) (counter : UInt64) :
    drawPlace seed blockHeight counter place = none := by
  rcases drawPlace_cases seed blockHeight counter place with ⟨-, none⟩ | ⟨positive, -⟩
  · exact none
  · exact absurd (places_eq_zero_iff.mpr divides) positive

theorem drawPlace_picks {place : Nat} (fits : place + 1 < 2 ^ 32) (counter : UInt64) :
    ∃ j next, drawPlace seed blockHeight counter place = some (j, next) ∧ j ≤ place := by
  rcases drawPlace_cases seed blockHeight counter place with ⟨zero, -⟩ | ⟨positive, some⟩
  · have divides := Nat.le_of_dvd (Nat.succ_pos place) (places_eq_zero_iff.mp zero)
    exact absurd fits (Nat.not_lt.mpr divides)
  · exact ⟨_, _, some, remainder_le _ positive⟩

theorem swap_eq_exchange (citizens : List Citizen) (i j : Nat) :
    swap citizens i j = (exchange citizens i j).getD citizens := by
  unfold swap exchange
  cases citizens[i]? with
  | none => rfl
  | some _ =>
      cases citizens[j]? with
      | none => rfl
      | some _ => rfl

theorem shuffle_eq_shuffleDown {i : Nat} {counter : UInt64} {citizens : List Citizen}
    (inside : i < citizens.length) :
    shuffle seed blockHeight i counter citizens =
      shuffleDown (drawPlace seed blockHeight) i counter citizens := by
  induction i generalizing counter citizens with
  | zero => rfl
  | succ i ih =>
      rw [shuffle, shuffleDown]
      rcases drawPlace_cases seed blockHeight counter (i + 1) with ⟨zero, none⟩ | ⟨positive, some⟩
      · rw [none, Option.bind_none]
        exact if_pos zero
      · have within := Nat.lt_of_le_of_lt (remainder_le (vrf seed blockHeight counter) positive) inside
        rw [some, Option.bind_some, exchange_of_lt inside within, Option.bind_some]
        refine (if_neg positive).trans ?_
        change shuffle seed blockHeight i (counter + 1) (swap citizens (i + 1)
          (vrf seed blockHeight counter % UInt32.ofNat (i + 1 + 1)).toNat) = _
        rw [swap_eq_exchange, exchange_of_lt inside within, Option.getD_some]
        exact ih (by rw [List.length_set, List.length_set]; exact Nat.lt_of_succ_lt inside)

/-- The places of the eligible citizens name the eligible citizens. -/
theorem eligiblePlaces_names (before citizens : List Citizen) :
    (eligiblePlaces before.length citizens).map ((before ++ citizens)[·]?) =
      (citizens.filter (·.isEligible)).map some := by
  induction citizens generalizing before with
  | nil => rfl
  | cons citizen rest ih =>
      have later := ih (before ++ [citizen])
      rw [List.length_append, List.length_singleton, List.append_assoc, List.singleton_append] at later
      unfold eligiblePlaces
      by_cases eligible : citizen.isEligible = true
      · rw [if_pos eligible, List.filter_cons_of_pos eligible, List.map_cons, List.map_cons, later]
        congr 1
        exact List.getElem?_append_right (Nat.le_refl _) |>.trans (by rw [Nat.sub_self]; rfl)
      · rw [if_neg eligible, List.filter_cons_of_neg eligible, later]

/-- Places that name citizens are seated as these citizens. -/
theorem seatPlaces_eq (boule : Boule) {drawn : List Nat} {citizens : List Citizen}
    (names : drawn.map (boule.citizens[·]?) = citizens.map some) {count : Nat}
    (enough : count ≤ citizens.length) :
    boule.seatPlaces drawn blockHeight count =
      some ((citizens.take count).mapIdx fun index citizen =>
        ⟨citizen.address, blockHeight, blockHeight + boule.termBlocks, UInt32.ofNat index⟩) := by
  induction count with
  | zero => rfl
  | succ count ih =>
      have inside : count < citizens.length := enough
      have named : drawn[count]?.map (boule.citizens[·]?) = some (some citizens[count]) := by
        rw [← List.getElem?_map, names, List.getElem?_map, List.getElem?_eq_getElem inside]
        rfl
      obtain ⟨place, drawnAt, citizenAt⟩ := Option.map_eq_some_iff.mp named
      unfold seatPlaces at ih ⊢
      rw [List.range_succ, List.foldlM_append, ih (Nat.le_of_succ_le enough), List.take_add_one,
        List.getElem?_eq_getElem inside, Option.toList_some, List.mapIdx_append, List.length_take,
        Nat.min_eq_left (Nat.le_of_lt inside)]
      simp [drawnAt, citizenAt]

end Places

/-- The checks of the sortition on places are those that the sortition of citizens has. -/
theorem conductSortitionOnPlaces_eq (boule : Boule) (seed : Bytes) (blockHeight : UInt64) :
    boule.conductSortitionOnPlaces seed blockHeight = boule.conductSortition seed blockHeight := by
  have names := eligiblePlaces_names [] boule.citizens
  have lengths : (eligiblePlaces 0 boule.citizens).length =
      (boule.citizens.filter (·.isEligible)).length := by
    have both := congrArg List.length names
    rwa [List.length_map, List.length_map] at both
  unfold conductSortitionOnPlaces conductSortition
  dsimp only
  rw [lengths]
  by_cases short : seed.length < 4
  · rw [if_pos short, if_pos short]
  rw [if_neg short, if_neg short]
  by_cases few : (boule.citizens.filter (·.isEligible)).length < boule.councilSize.toNat
  · rw [if_pos few, if_pos few]
  rw [if_neg few, if_neg few]
  by_cases nobody : boule.citizens.filter (·.isEligible) = []
  · have stops : shuffleDown (drawPlace seed blockHeight) (2 ^ 64 - 1) 0
        (eligiblePlaces 0 boule.citizens) = none :=
      shuffleDown_none (by decide) (Nat.le_refl _) (drawPlace_wraps (by decide)) _ _
    rw [if_pos nobody, if_pos (List.length_eq_zero_iff.mpr nobody), stops]
    rfl
  have someone : (boule.citizens.filter (·.isEligible)).length ≠ 0 :=
    fun zero => nobody (List.length_eq_zero_iff.mp zero)
  rw [if_neg nobody, if_neg someone, shuffle_eq_shuffleDown (Nat.sub_one_lt someone)]
  rw [List.nil_append, List.length_nil] at names
  have mapped : shuffleDown (drawPlace seed blockHeight)
      ((boule.citizens.filter (·.isEligible)).length - 1) 0
      ((eligiblePlaces 0 boule.citizens).map (boule.citizens[·]?)) = _ := shuffleDown_map _ _ _ _
  rw [names, shuffleDown_map] at mapped
  cases drawn : shuffleDown (drawPlace seed blockHeight)
      ((boule.citizens.filter (·.isEligible)).length - 1) 0
      (boule.citizens.filter (·.isEligible)) with
  | none =>
      rw [drawn] at mapped
      rw [Option.map_eq_none_iff.mp mapped.symm]
      rfl
  | some citizens =>
      rw [drawn] at mapped
      obtain ⟨places, placed, named⟩ := Option.map_eq_some_iff.mp mapped.symm
      have enough : boule.councilSize.toNat ≤ citizens.length := by
        rw [(shuffleDown_perm drawn).length_eq]
        exact Nat.le_of_not_lt few
      rw [placed]
      simp only [Option.bind_eq_bind, Option.bind_some]
      rw [seatPlaces_eq boule named enough]
      rfl

/-! ## The registry -/

theorem changeEligibility_addresses (address : Bytes) (eligible : Bool) (citizens : List Citizen) :
    (changeEligibility address eligible citizens).map Citizen.address =
      citizens.map Citizen.address := by
  induction citizens with
  | nil => rfl
  | cons citizen rest ih =>
      unfold changeEligibility
      split
      · rfl
      · rw [List.map_cons, List.map_cons, ih]

theorem registerCitizen_distinct {boule : Boule} (distinct : (boule.citizens.map Citizen.address).Nodup)
    (address : Bytes) (stakeAmount blockHeight : UInt64) :
    ((boule.registerCitizen address stakeAmount blockHeight).2.citizens.map Citizen.address).Nodup := by
  unfold registerCitizen
  split
  · exact distinct
  split
  · exact distinct
  split
  · exact distinct
  rename_i unregistered
  dsimp only
  rw [List.map_append, List.nodup_append]
  refine ⟨distinct, List.nodup_singleton _, ?_⟩
  rintro _ listed _ added rfl
  rw [List.map_singleton, List.mem_singleton] at added
  obtain ⟨citizen, member, same⟩ := List.mem_map.mp listed
  exact unregistered (List.any_eq_true.mpr ⟨citizen, member, beq_iff_eq.mpr (same.trans added)⟩)

/-! ## A proper council -/

/-- What is asked of a council when it has been drawn. -/
structure ProperCouncil (boule after : Boule) : Prop where
  size : after.council.length = boule.councilSize.toNat
  distinct : (after.council.map CouncilMember.address).Nodup
  eligible : ∀ member ∈ after.council,
    ∃ citizen ∈ boule.citizens, citizen.isEligible = true ∧ citizen.address = member.address

/-- When a council is drawn, somebody is eligible, and the places count on 32 bits. -/
def CanDraw (boule : Boule) (seed : Bytes) : Prop :=
  seed.length < 4 ∨ (boule.citizens.filter (·.isEligible)).length < boule.councilSize.toNat ∨
    0 < (boule.citizens.filter (·.isEligible)).length ∧
      (boule.citizens.filter (·.isEligible)).length < 2 ^ 32

instance (boule : Boule) (seed : Bytes) : Decidable (boule.CanDraw seed) :=
  inferInstanceAs (Decidable (_ ∨ _))

variable (boule : Boule) (seed : Bytes) (blockHeight : UInt64)

/-- A sortition is refused, has no result, or seats the first of the eligible citizens in some
order. -/
theorem conductSortition_cases :
    boule.CanDraw seed ∧ boule.conductSortition seed blockHeight = some (false, boule) ∨
    ¬boule.CanDraw seed ∧ boule.conductSortition seed blockHeight = none ∨
    boule.CanDraw seed ∧ ∃ drawn, drawn.Perm (boule.citizens.filter (·.isEligible)) ∧
      boule.councilSize.toNat ≤ drawn.length ∧
      boule.conductSortition seed blockHeight =
        some (true, { boule with council := boule.seat drawn blockHeight }) := by
  unfold conductSortition
  by_cases short : seed.length < 4
  · exact .inl ⟨.inl short, if_pos short⟩
  rw [if_neg short]
  dsimp only
  by_cases few : (boule.citizens.filter (·.isEligible)).length < boule.councilSize.toNat
  · exact .inl ⟨.inr (.inl few), if_pos few⟩
  rw [if_neg few]
  by_cases nobody : boule.citizens.filter (·.isEligible) = []
  · refine .inr (.inl ⟨?_, if_pos nobody⟩)
    rintro (sized | sized | ⟨someone, -⟩)
    · exact short sized
    · exact few sized
    · rw [nobody] at someone
      exact absurd someone (Nat.lt_irrefl 0)
  have someone : 0 < (boule.citizens.filter (·.isEligible)).length := List.length_pos_iff.mpr nobody
  have last := Nat.sub_one_lt_of_lt someone
  rw [if_neg nobody, shuffle_eq_shuffleDown last]
  by_cases counted : (boule.citizens.filter (·.isEligible)).length < 2 ^ 32
  · have goes : ∃ drawn, shuffleDown (drawPlace seed blockHeight)
        ((boule.citizens.filter (·.isEligible)).length - 1) 0
        (boule.citizens.filter (·.isEligible)) = some drawn :=
      shuffleDown_exists (fun counter _ _ below => drawPlace_picks (by omega) counter) last 0
    obtain ⟨drawn, done⟩ := goes
    have perm := shuffleDown_perm done
    refine .inr (.inr ⟨.inr (.inr ⟨someone, counted⟩), drawn, perm, ?_, ?_⟩)
    · rw [perm.length_eq]
      exact Nat.le_of_not_lt few
    · rw [done]
      rfl
  · refine .inr (.inl ⟨?_, ?_⟩)
    · rintro (sized | sized | ⟨-, sized⟩)
      · exact short sized
      · exact few sized
      · exact counted sized
    · have positive : 0 < 2 ^ 32 - 1 := by decide
      have reached : 2 ^ 32 - 1 ≤ (boule.citizens.filter (·.isEligible)).length - 1 := by omega
      have stops : shuffleDown (drawPlace seed blockHeight)
          ((boule.citizens.filter (·.isEligible)).length - 1) 0
          (boule.citizens.filter (·.isEligible)) = none :=
        shuffleDown_none positive reached (drawPlace_wraps (Nat.dvd_refl (2 ^ 32))) _ _
      rw [stops]
      rfl

theorem seat_addresses (drawn : List Citizen) :
    (boule.seat drawn blockHeight).map CouncilMember.address =
      (drawn.take boule.councilSize.toNat).map Citizen.address := by
  unfold seat
  apply List.ext_getElem?
  intro index
  rw [List.getElem?_map, List.getElem?_map, List.getElem?_mapIdx, Option.map_map]
  rfl

variable {boule}

/-- The first of the eligible citizens, in any order, are a proper council. -/
theorem seat_proper (distinct : (boule.citizens.map Citizen.address).Nodup) {drawn : List Citizen}
    (perm : drawn.Perm (boule.citizens.filter (·.isEligible)))
    (enough : boule.councilSize.toNat ≤ drawn.length) :
    boule.ProperCouncil { boule with council := boule.seat drawn blockHeight } where
  size := by
    have counted := congrArg List.length (boule.seat_addresses blockHeight drawn)
    rwa [List.length_map, List.length_map, List.length_take, Nat.min_eq_left enough] at counted
  distinct := by
    have drawnDistinct : (drawn.map Citizen.address).Nodup :=
      (perm.map Citizen.address).nodup_iff.mpr (distinct.sublist (List.filter_sublist.map _))
    rw [seat_addresses]
    exact drawnDistinct.sublist ((List.take_sublist _ _).map _)
  eligible member seated := by
    have address := List.mem_map_of_mem (f := CouncilMember.address) seated
    rw [seat_addresses] at address
    obtain ⟨citizen, taken, same⟩ := List.mem_map.mp address
    obtain ⟨listed, eligible⟩ := List.mem_filter.mp (perm.mem_iff.mp (List.mem_of_mem_take taken))
    exact ⟨citizen, listed, eligible, same⟩

theorem apply_distinct {call : BouleCall} {after : Boule}
    (distinct : (boule.citizens.map Citizen.address).Nodup) (applied : boule.apply call = some after) :
    (after.citizens.map Citizen.address).Nodup := by
  cases call with
  | registerCitizen address stakeAmount blockHeight =>
      cases applied
      exact registerCitizen_distinct distinct address stakeAmount blockHeight
  | setCitizenEligibility address eligible =>
      cases applied
      unfold setCitizenEligibility
      split
      · rwa [← changeEligibility_addresses address eligible] at distinct
      · exact distinct
  | conductSortition seed blockHeight =>
      obtain ⟨⟨done, _⟩, conducted, rfl⟩ := Option.map_eq_some_iff.mp applied
      rcases conductSortition_cases boule seed blockHeight with
        ⟨-, refused⟩ | ⟨-, stopped⟩ | ⟨-, drawn, -, -, seated⟩
      · rw [refused] at conducted
        cases conducted
        exact distinct
      · rw [stopped] at conducted
        cases conducted
      · rw [seated] at conducted
        cases conducted
        exact distinct
  | reviewProposal proposalId councilMember approved rationale blockHeight =>
      cases applied
      rcases boule.reviewProposal_cases proposalId councilMember approved rationale blockHeight with
        refused | ⟨-, -, done⟩
      · rwa [refused]
      · rwa [done]
  | raiseGrapheParanomon proposalId challenger grounds blockHeight =>
      cases applied
      rcases boule.raiseGrapheParanomon_cases proposalId challenger grounds blockHeight with
        refused | ⟨-, -, done⟩
      · rwa [refused]
      · rwa [done]
  | voteOnGrapheParanomon proposalId councilMember dismiss =>
      cases applied
      rcases boule.voteOnGrapheParanomon_cases proposalId councilMember dismiss with
        refused | ⟨_, -, -, -, done⟩
      · rwa [refused]
      · rwa [done]
  | isProposalApproved | setMinStake | setScreeningRequired =>
      cases applied
      exact distinct

/-- In any registry, a sortition that is asked for ends within its ranges, with a proper council
or with the one before, exactly when somebody is eligible where a council is drawn and the places
count on 32 bits. -/
theorem sortition_proper_iff {councilSize : UInt32} {termBlocks minStake : UInt64}
    {screeningRequired : Bool} {calls : List BouleCall}
    (reached : calls.foldlM apply (new councilSize termBlocks minStake screeningRequired) =
      some boule) (seed : Bytes) (blockHeight : UInt64) :
    (∃ drawn after, boule.conductSortitionOnPlaces seed blockHeight = some (drawn, after) ∧
        (drawn = true → boule.ProperCouncil after) ∧
        (drawn = false → after.council = boule.council)) ↔
      boule.CanDraw seed := by
  have distinct : (boule.citizens.map Citizen.address).Nodup :=
    foldlM_invariant (motive := fun boule => (boule.citizens.map Citizen.address).Nodup)
      (fun _ _ _ distinct applied => apply_distinct distinct applied) List.nodup_nil reached
  rw [conductSortitionOnPlaces_eq]
  rcases conductSortition_cases boule seed blockHeight with
    ⟨can, refused⟩ | ⟨cannot, stopped⟩ | ⟨can, drawn, perm, enough, seated⟩
  · exact iff_of_true ⟨false, boule, refused, nofun, fun _ => rfl⟩ can
  · refine iff_of_false ?_ cannot
    rintro ⟨drawn, after, done, -⟩
    rw [stopped] at done
    cases done
  · exact iff_of_true
      ⟨true, _, seated, fun _ => seat_proper blockHeight distinct perm enough, nofun⟩ can

/-- Three citizens, of whom one has lost eligibility. -/
def registered : List BouleCall :=
  [.registerCitizen [1] 0 0, .registerCitizen [2] 0 0, .registerCitizen [3] 0 0,
    .setCitizenEligibility [2] false]

theorem sortition_of_two :
    ∃ boule : Boule, registered.foldlM apply (new 2 100 0 true) = some boule ∧
      ∃ drawn after, boule.conductSortitionOnPlaces [0, 0, 0, 0] 7 = some (drawn, after) ∧
        (drawn = true → boule.ProperCouncil after) ∧
        (drawn = false → after.council = boule.council) := by
  have reached : ∃ boule, registered.foldlM apply (new 2 100 0 true) = some boule ∧
      boule.CanDraw [0, 0, 0, 0] := ⟨_, rfl, .inr (.inr (by decide))⟩
  obtain ⟨boule, reached, can⟩ := reached
  exact ⟨boule, reached, (sortition_proper_iff reached [0, 0, 0, 0] 7).mpr can⟩

/-- A council of nobody is asked for when nobody is registered. -/
theorem sortition_of_nobody :
    ¬ ∀ (councilSize : UInt32) (termBlocks minStake : UInt64) (screeningRequired : Bool)
      (calls : List BouleCall) (boule : Boule) (seed : Bytes) (blockHeight : UInt64),
      calls.foldlM apply (new councilSize termBlocks minStake screeningRequired) = some boule →
        ∃ drawn after, boule.conductSortitionOnPlaces seed blockHeight = some (drawn, after) ∧
          (drawn = true → boule.ProperCouncil after) ∧
          (drawn = false → after.council = boule.council) := by
  intro claim
  obtain ⟨drawn, after, done, -⟩ :=
    claim 0 100 0 true [] (new 0 100 0 true) [0, 0, 0, 0] 7 rfl
  have stopped : (new 0 100 0 true).conductSortitionOnPlaces [0, 0, 0, 0] 7 = none := by
    rw [conductSortitionOnPlaces_eq]
    rfl
  rw [stopped] at done
  cases done

end Boule

end Parthenon.Governance
