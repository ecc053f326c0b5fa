import Parthenon.P2p.PeerFile

namespace Parthenon.P2p

open Std Library Storage Common

/-! # Ban persistence

Whether a node that starts again refuses the peers that it refused before.
-/

inductive PeerAction (Score : Type) where
  | addPeer (services : UInt64)
  | recordConnectionAttempt
  | recordSuccessfulConnection
  | recordFailedConnection
  | updateLastSeen
  | banPeer (durationSeconds : Int64)
  | unbanPeer
  | isBanned
  | updateScore (delta : Score)
  | recordBlockReceived
  | recordTxReceived
  | recordInvalidMessage
  | recordProtocolViolation
deriving DecidableEq, Repr

/-- A call at a reading of the clock, or a restart over whatever file there was. -/
inductive PeerStep (Score : Type) where
  | call (address : Bytes) (port : UInt16) (now : Int64) (action : PeerAction Score)
  | restart (file : Option Bytes)
deriving DecidableEq, Repr

variable {Score : Type}

namespace PeerDatabase

variable (arith : ScoreArith Score)

def step (db : PeerDatabase Score) : PeerStep Score → PeerDatabase Score
  | .call address port now action =>
      match action with
      | .addPeer services => db.addPeer arith address port now services
      | .recordConnectionAttempt => db.recordConnectionAttempt arith address port
      | .recordSuccessfulConnection => db.recordSuccessfulConnection arith address port now
      | .recordFailedConnection => db.recordFailedConnection arith address port
      | .updateLastSeen => db.updateLastSeen arith address port now
      | .banPeer durationSeconds => db.banPeer arith address port now durationSeconds
      | .unbanPeer => db.unbanPeer arith address port
      | .isBanned => (db.isBanned address port now).2
      | .updateScore delta => db.updateScore arith address port delta
      | .recordBlockReceived => db.recordBlockReceived arith address port
      | .recordTxReceived => db.recordTxReceived arith address port
      | .recordInvalidMessage => db.recordInvalidMessage arith address port
      | .recordProtocolViolation => db.recordProtocolViolation arith address port now
  | .restart file => db.restart arith file

/-- The record that `peers_[key]` stands for. -/
def recordAt (db : PeerDatabase Score) (address : Bytes) (port : UInt16) : PeerInfo Score :=
  db.peers[makeKey address port]?.getD (.initial arith)

/-- A database opened where there is no file yet. -/
def opened : PeerDatabase Score := fresh.open_ arith none

def run (steps : List (PeerStep Score)) : PeerDatabase Score :=
  steps.foldl (step arith) (opened arith)

end PeerDatabase

namespace PeerInfo

def Expired (info : PeerInfo Score) (now : Int64) : Prop :=
  0 < info.banUntil ∧ info.banUntil < now

instance (info : PeerInfo Score) (now : Int64) : Decidable (info.Expired now) :=
  inferInstanceAs (Decidable (_ ∧ _))

end PeerInfo

/-- Until its ban ends, a peer is banned after a restart if and only if it was before. -/
def SurvivesRestart (arith : ScoreArith Score) (db : PeerDatabase Score) : Prop :=
  ∀ (address : Bytes) (port : UInt16) (file : Option Bytes) (before after : Int64),
    (∀ info, db.peers[PeerDatabase.makeKey address port]? = some info → info.isBanned = true →
      ¬ info.Expired before ∧ ¬ info.Expired after) →
      ((db.restart arith file).isBanned address port after).1 = (db.isBanned address port before).1

namespace PeerStep

/-- The address of a call is without blanks. -/
def Addressed : PeerStep Score → Prop
  | .call address _ _ _ => Visible address
  | .restart _ => True

/-- When the ban ends that a step sets, if it sets one. -/
def banEnd (arith : ScoreArith Score) (db : PeerDatabase Score) : PeerStep Score → Option Int64
  | .call address port now action =>
      match action with
      | .banPeer durationSeconds => some (now + durationSeconds)
      | .recordProtocolViolation =>
          if (db.recordAt arith address port).protocolViolations + 1 ≥ 5 then some (now + 86400)
          else none
      | _ => none
  | .restart _ => none

/-- A ban is set only for a peer whose record has an address, and does not look like a comment. -/
def KeepsBan (arith : ScoreArith Score) (db : PeerDatabase Score) (step : PeerStep Score) : Prop :=
  match step with
  | .call address port _ _ =>
      (step.banEnd arith db).isSome = true →
        (db.recordAt arith address port).address ≠ [] ∧ address.head? ≠ some 35
  | .restart _ => True

end PeerStep

/-- Every step of a run keeps the ban that it sets. -/
def KeepsBans (arith : ScoreArith Score) : PeerDatabase Score → List (PeerStep Score) → Prop
  | _, [] => True
  | db, step :: steps => step.KeepsBan arith db ∧ KeepsBans arith (db.step arith step) steps

/-- The texts of a record are tokens, but for an address that may be missing. -/
structure Tokened (key : Bytes) (info : PeerInfo Score) : Prop where
  named : key ≠ []
  visible : Visible key
  addressVisible : Visible info.address

/-- A ban is in a record that is read back, and a record that is not has no ban to lose. -/
structure BanKept (key : Bytes) (info : PeerInfo Score) : Prop where
  banned : info.isBanned = true → info.address ≠ [] ∧ key.head? ≠ some 35
  unbanned : info.isBanned = false → info.address = [] → info.banUntil = 0

theorem BanKept.of_same {key : Bytes} {info same : PeerInfo Score} (kept : BanKept key info)
    (sameAddress : same.address = info.address) (sameBan : same.isBanned = info.isBanned)
    (sameEnd : same.banUntil = info.banUntil) : BanKept key same := by
  refine ⟨?_, ?_⟩
  · rw [sameBan, sameAddress]
    exact kept.banned
  · rw [sameBan, sameAddress, sameEnd]
    exact kept.unbanned

/-- What is true of an open database in any run. -/
structure PeerDatabase.Sound (db : PeerDatabase Score) : Prop where
  isOpen : db.isOpen = true
  tokened : ∀ (key : Bytes) info, db.peers[key]? = some info → Tokened key info

def PeerDatabase.BansKept (db : PeerDatabase Score) : Prop :=
  ∀ (key : Bytes) info, db.peers[key]? = some info → BanKept key info

/-! ## Answers -/

section Answers

variable {arith : ScoreArith Score} {db : PeerDatabase Score}

theorem isBanned_eq (address : Bytes) (port : UInt16) (now : Int64) :
    (db.isBanned address port now).1 =
      db.peers[PeerDatabase.makeKey address port]?.any fun info =>
        info.isBanned && !decide (info.Expired now) := by
  simp only [PeerDatabase.isBanned]
  cases found : db.peers[PeerDatabase.makeKey address port]? with
  | none => rfl
  | some info =>
      simp only [Option.any_some]
      split
      · rename_i expired
        have isExpired : info.Expired now := expired
        simp [isExpired]
      · rename_i current
        have isCurrent : ¬ info.Expired now := current
        simp [isCurrent]

theorem PeerDatabase.Sound.restart_found (sound : db.Sound) (readable : arith.Readable)
    (file : Option Bytes) (key : Bytes) :
    (db.restart arith file).peers[key]? = db.peers[key]?.bind (reread arith key) := by
  apply P2p.restart_found readable sound.isOpen
  intro key info found
  have tokened := sound.tokened key info found
  exact ⟨tokened.named, tokened.visible, tokened.addressVisible⟩

theorem reread_addressed {key : Bytes} {info : PeerInfo Score} (readable : arith.Readable)
    (tokened : Tokened key info) (addressed : info.address ≠ []) (plain : key.head? ≠ some 35) :
    ∃ read, reread arith key info = some read ∧ read.address = info.address ∧
      read.isBanned = info.isBanned ∧ read.banUntil = info.banUntil := by
  obtain ⟨score, isRead⟩ := readInfo_addressed readable addressed tokened.addressVisible
  exact ⟨{ info with score := score }, by rw [reread, if_neg plain, isRead]; rfl, rfl, rfl, rfl⟩

/-- A record is read back with its address and its ban, or without an address one field off. -/
theorem reread_cases {key : Bytes} {info read : PeerInfo Score} (readable : arith.Readable)
    (tokened : Tokened key info) (isRead : reread arith key info = some read) :
    key.head? ≠ some 35 ∧
      (info.address ≠ [] ∧ read.address = info.address ∧ read.isBanned = info.isBanned ∧
          read.banUntil = info.banUntil ∨
        info.address = [] ∧ read.address ≠ [] ∧ Visible read.address ∧
          (read.isBanned = true → info.banUntil.toInt = 1)) := by
  have plain : key.head? ≠ some 35 := by
    intro comment
    rw [reread, if_pos comment] at isRead
    cases isRead
  refine ⟨plain, ?_⟩
  by_cases addressed : info.address = []
  · rw [reread, if_neg plain] at isRead
    obtain ⟨⟨_, rest⟩, isInfo, rfl⟩ := Option.map_eq_some_iff.mp isRead
    exact .inr ⟨addressed, readInfo_unaddressed addressed isInfo⟩
  · obtain ⟨same, isSame, sameFields⟩ := reread_addressed readable tokened addressed plain
    rw [isRead] at isSame
    cases isSame
    exact .inl ⟨addressed, sameFields⟩

/-- Where the record of a ban cannot be read back, the ban is gone after a restart. -/
theorem ban_lost {address : Bytes} {port : UInt16} {info : PeerInfo Score} (readable : arith.Readable)
    (sound : db.Sound) (found : db.peers[PeerDatabase.makeKey address port]? = some info)
    (later : info.banUntil.toInt ≠ 1)
    (missing : info.address = [] ∨ (PeerDatabase.makeKey address port).head? = some 35)
    (file : Option Bytes) (now : Int64) :
    ((db.restart arith file).isBanned address port now).1 = false := by
  rw [isBanned_eq, sound.restart_found readable, found, Option.bind_some]
  cases isRead : reread arith (PeerDatabase.makeKey address port) info with
  | none => rfl
  | some read =>
      have tokened := sound.tokened _ info found
      obtain ⟨plain, ⟨addressed, -⟩ | ⟨-, -, -, unread⟩⟩ := reread_cases readable tokened isRead
      · rcases missing with unaddressed | comment
        · exact absurd unaddressed addressed
        · exact absurd comment plain
      · have free : read.isBanned = false := by
          rw [← Bool.not_eq_true]
          exact fun banned => later (unread banned)
        simp [free]

theorem PeerDatabase.BansKept.survive (kept : db.BansKept) (sound : db.Sound)
    (readable : arith.Readable) : SurvivesRestart arith db := by
  intro address port file before after current
  rw [isBanned_eq, isBanned_eq, sound.restart_found readable]
  cases found : db.peers[PeerDatabase.makeKey address port]? with
  | none => simp
  | some info =>
      have tokened := sound.tokened _ info found
      have banKept := kept _ info found
      rw [Option.bind_some, Option.any_some]
      cases isBanned : info.isBanned with
      | false =>
          cases isRead : reread arith (PeerDatabase.makeKey address port) info with
          | none => rfl
          | some read =>
              have free : read.isBanned = false := by
                obtain ⟨-, ⟨-, -, sameBan, -⟩ | ⟨unaddressed, -, -, unread⟩⟩ :=
                  reread_cases readable tokened isRead
                · exact sameBan.trans isBanned
                · rw [← Bool.not_eq_true]
                  intro banned
                  have isOne := unread banned
                  rw [banKept.unbanned isBanned unaddressed, Int64.toInt_zero] at isOne
                  omega
              simp [free]
      | true =>
          obtain ⟨addressed, plain⟩ := banKept.banned isBanned
          obtain ⟨read, isRead, -, sameBan, sameEnd⟩ :=
            reread_addressed readable tokened addressed plain
          obtain ⟨notBefore, notAfter⟩ := current info found isBanned
          have stillCurrent : ¬ read.Expired after := by
            rwa [PeerInfo.Expired, sameEnd]
          simp [isRead, isBanned, sameBan, notBefore, stillCurrent]

end Answers

/-! ## Steps -/

section Steps

variable {arith : ScoreArith Score} {db : PeerDatabase Score} {address : Bytes} {port : UInt16}

theorem makeKey_tokened (visible : Visible address) (port : UInt16) :
    PeerDatabase.makeKey address port ≠ [] ∧ Visible (PeerDatabase.makeKey address port) := by
  refine ⟨by simp [PeerDatabase.makeKey], ?_⟩
  intro byte member
  rcases List.mem_append.mp member with inAddress | later
  · exact visible byte inAddress
  · rcases List.mem_cons.mp later with rfl | inPort
    · decide
    · exact decimal_visible _ byte inPort

theorem makeKey_head (plain : address.head? ≠ some 35) (port : UInt16) :
    (PeerDatabase.makeKey address port).head? ≠ some 35 := by
  cases address with
  | nil => simp [PeerDatabase.makeKey]
  | cons first rest => simpa [PeerDatabase.makeKey] using plain

theorem PeerDatabase.Sound.recordAt (sound : db.Sound) (arith : ScoreArith Score)
    (visible : Visible address) (port : UInt16) :
    Tokened (PeerDatabase.makeKey address port) (db.recordAt arith address port) := by
  rw [PeerDatabase.recordAt]
  cases found : db.peers[PeerDatabase.makeKey address port]? with
  | some info => exact sound.tokened _ info found
  | none =>
      obtain ⟨named, keyVisible⟩ := makeKey_tokened visible port
      exact ⟨named, keyVisible, by simp [Visible, PeerInfo.initial]⟩

theorem PeerDatabase.BansKept.recordAt (kept : db.BansKept) (arith : ScoreArith Score)
    (address : Bytes) (port : UInt16) :
    BanKept (PeerDatabase.makeKey address port) (db.recordAt arith address port) := by
  rw [PeerDatabase.recordAt]
  cases found : db.peers[PeerDatabase.makeKey address port]? with
  | some info => exact kept _ info found
  | none => exact ⟨by simp [PeerInfo.initial], fun _ _ => rfl⟩

/-- What a call writes over a record: a ban, the ban it had, or none. -/
inductive CallEffect (address : Bytes) (info written : PeerInfo Score) : Option Int64 → Prop where
  | banned (ends : Int64) (sameAddress : written.address = info.address)
      (banned : written.isBanned = true) (until_ : written.banUntil = ends) :
      CallEffect address info written (some ends)
  | kept (sameAddress : written.address = info.address)
      (sameBan : written.isBanned = info.isBanned) (sameEnd : written.banUntil = info.banUntil) :
      CallEffect address info written none
  | freed (isAddress : written.address = info.address ∨ written.address = address)
      (free : written.isBanned = false) (noEnd : written.banUntil = 0) :
      CallEffect address info written none

theorem call_effect (arith : ScoreArith Score) (db : PeerDatabase Score) (now : Int64)
    (action : PeerAction Score) :
    (db.step arith (.call address port now action) = db ∧
        (PeerStep.call address port now action).banEnd arith db = none) ∨
      ∃ written, db.step arith (.call address port now action) =
          { db with peers := db.peers.insert (PeerDatabase.makeKey address port) written } ∧
        CallEffect address (db.recordAt arith address port) written
          ((PeerStep.call address port now action).banEnd arith db) := by
  cases action with
  | addPeer services =>
      simp only [PeerDatabase.step, PeerDatabase.addPeer]
      split
      · exact .inr ⟨_, rfl, .freed (.inr rfl) rfl rfl⟩
      · exact .inl ⟨rfl, rfl⟩
  | isBanned =>
      simp only [PeerDatabase.step, PeerDatabase.isBanned]
      cases found : db.peers[PeerDatabase.makeKey address port]? with
      | none => exact .inl ⟨rfl, rfl⟩
      | some info =>
          have isRecord : db.recordAt arith address port = info := by
            rw [PeerDatabase.recordAt, found, Option.getD_some]
          dsimp only
          split
          · exact .inr ⟨_, rfl, isRecord ▸ .freed (.inl rfl) rfl rfl⟩
          · exact .inl ⟨rfl, rfl⟩
  | banPeer durationSeconds => exact .inr ⟨_, rfl, .banned _ rfl rfl rfl⟩
  | unbanPeer => exact .inr ⟨_, rfl, .freed (.inl rfl) rfl rfl⟩
  | recordProtocolViolation =>
      refine .inr ⟨_, rfl, ?_⟩
      by_cases fifth : (db.recordAt arith address port).protocolViolations + 1 ≥ 5
      · rw [PeerStep.banEnd, if_pos fifth]
        exact .banned _ rfl (if_pos fifth) (if_pos fifth)
      · rw [PeerStep.banEnd, if_neg fifth]
        exact .kept rfl (if_neg fifth) (if_neg fifth)
  | _ => exact .inr ⟨_, rfl, .kept rfl rfl rfl⟩

theorem PeerDatabase.Sound.step {step : PeerStep Score} (sound : db.Sound)
    (readable : arith.Readable) (addressed : step.Addressed) : (db.step arith step).Sound := by
  cases step with
  | call address port now action =>
      rcases call_effect arith db now action with ⟨same, -⟩ | ⟨written, isAfter, effect⟩
      · rwa [same]
      · have tokened := sound.recordAt arith addressed port
        have addressVisible : Visible written.address := by
          generalize (PeerStep.call address port now action).banEnd arith db = ends at effect
          cases effect with
          | banned ends sameAddress => exact sameAddress ▸ tokened.addressVisible
          | kept sameAddress => exact sameAddress ▸ tokened.addressVisible
          | freed isAddress =>
              rcases isAddress with same | same
              · exact same ▸ tokened.addressVisible
              · exact same ▸ addressed
        rw [isAfter]
        exact ⟨sound.isOpen,
          forall_insert sound.tokened ⟨tokened.named, tokened.visible, addressVisible⟩⟩
  | restart file =>
      refine ⟨rfl, fun key read found => ?_⟩
      rw [PeerDatabase.step, sound.restart_found readable] at found
      obtain ⟨info, isInfo, isRead⟩ := Option.bind_eq_some_iff.mp found
      have tokened := sound.tokened key info isInfo
      refine ⟨tokened.named, tokened.visible, ?_⟩
      obtain ⟨-, ⟨-, sameAddress, -⟩ | ⟨-, -, visible, -⟩⟩ := reread_cases readable tokened isRead
      · exact sameAddress ▸ tokened.addressVisible
      · exact visible

theorem PeerDatabase.BansKept.step {step : PeerStep Score} (kept : db.BansKept) (sound : db.Sound)
    (readable : arith.Readable) (keeps : step.KeepsBan arith db) :
    (db.step arith step).BansKept := by
  cases step with
  | call address port now action =>
      rcases call_effect arith db now action with ⟨same, -⟩ | ⟨written, isAfter, effect⟩
      · rwa [same]
      · have banKept := kept.recordAt arith address port
        have writtenKept : BanKept (PeerDatabase.makeKey address port) written := by
          generalize isEnd : (PeerStep.call address port now action).banEnd arith db = ends
            at effect
          cases effect with
          | banned ends sameAddress banned =>
              have isSome : ((PeerStep.call address port now action).banEnd arith db).isSome =
                  true := by
                rw [isEnd]
                rfl
              obtain ⟨addressed, plain⟩ := keeps isSome
              refine ⟨fun _ => ⟨sameAddress ▸ addressed, makeKey_head plain port⟩, ?_⟩
              intro free
              rw [banned] at free
              cases free
          | kept sameAddress sameBan sameEnd =>
              exact banKept.of_same sameAddress sameBan sameEnd
          | freed _ free noEnd =>
              refine ⟨fun banned => ?_, fun _ _ => noEnd⟩
              rw [free] at banned
              cases banned
        rw [isAfter]
        exact forall_insert kept writtenKept
  | restart file =>
      intro key read found
      rw [PeerDatabase.step, sound.restart_found readable] at found
      obtain ⟨info, isInfo, isRead⟩ := Option.bind_eq_some_iff.mp found
      have banKept := kept key info isInfo
      obtain ⟨plain, ⟨-, sameAddress, sameBan, sameEnd⟩ | ⟨-, some_, -, -⟩⟩ :=
        reread_cases readable (sound.tokened key info isInfo) isRead
      · exact banKept.of_same sameAddress sameBan sameEnd
      · exact ⟨fun _ => ⟨some_, plain⟩, fun _ none => absurd none some_⟩

theorem run_kept {steps : List (PeerStep Score)} (readable : arith.Readable)
    (addressed : ∀ step ∈ steps, step.Addressed) (keeps : KeepsBans arith db steps)
    (sound : db.Sound) (kept : db.BansKept) :
    (steps.foldl (PeerDatabase.step arith) db).Sound ∧
      (steps.foldl (PeerDatabase.step arith) db).BansKept := by
  induction steps generalizing db with
  | nil => exact ⟨sound, kept⟩
  | cons step steps ih =>
      obtain ⟨here, later⟩ := List.forall_mem_cons.mp addressed
      exact ih later keeps.2 (sound.step readable here) (kept.step sound readable keeps.1)

theorem KeepsBans.prefix_ {reached steps : List (PeerStep Score)} (isPrefix : reached <+: steps)
    (keeps : KeepsBans arith db steps) : KeepsBans arith db reached := by
  induction reached generalizing db steps with
  | nil => exact trivial
  | cons step reached ih =>
      cases steps with
      | nil => exact absurd (List.prefix_nil.mp isPrefix) (List.cons_ne_nil _ _)
      | cons first steps =>
          obtain ⟨rfl, later⟩ := List.cons_prefix_cons.mp isPrefix
          exact ⟨keeps.1, ih later keeps.2⟩

/-- A ban that is set in a record that cannot be read back is lost at once. -/
theorem keepsBan_of_survives {step : PeerStep Score} (readable : arith.Readable) (sound : db.Sound)
    (addressed : step.Addressed) (later : step.banEnd arith db ≠ some 1)
    (survives : SurvivesRestart arith (db.step arith step)) : step.KeepsBan arith db := by
  cases step with
  | restart file => exact trivial
  | call address port now action =>
      intro bans
      by_contra lost
      have soundAfter := sound.step readable addressed
      rcases call_effect arith db now action with
        ⟨-, noBan⟩ | ⟨written, isAfter, effect⟩
      · rw [noBan] at bans
        cases bans
      · generalize isEnd : (PeerStep.call address port now action).banEnd arith db = ends
          at effect bans later
        cases effect with
        | kept => cases bans
        | freed => cases bans
        | banned ends sameAddress banned until_ =>
            have found : (db.step arith (.call address port now action)).peers[
                PeerDatabase.makeKey address port]? = some written := by
              rw [isAfter, getElem?_insert_eq, if_pos rfl]
            have notFirst : written.banUntil.toInt ≠ 1 := by
              intro first
              apply later
              rw [← until_, Option.some.injEq, ← Int64.toInt_inj, first]
              rfl
            have missing : written.address = [] ∨
                (PeerDatabase.makeKey address port).head? = some 35 := by
              rw [sameAddress]
              by_contra neither
              obtain ⟨some_, plain⟩ := not_or.mp neither
              refine lost ⟨some_, fun comment => plain ?_⟩
              cases address with
              | nil => cases comment
              | cons first rest => exact comment
            have current : ¬ written.Expired written.banUntil := fun expired =>
              Int64.lt_irrefl expired.2
            have same := survives address port none written.banUntil written.banUntil
              fun info isInfo _ => by
                rw [found] at isInfo
                cases isInfo
                exact ⟨current, current⟩
            rw [ban_lost readable soundAfter found notFirst missing, isBanned_eq, found] at same
            simp [banned, current] at same

theorem keepsBans_of_survives {steps : List (PeerStep Score)} (readable : arith.Readable)
    (sound : db.Sound) (addressed : ∀ step ∈ steps, step.Addressed)
    (later : ∀ step ∈ steps, ∀ db, step.banEnd arith db ≠ some 1)
    (survives : ∀ reached, reached <+: steps →
      SurvivesRestart arith (reached.foldl (PeerDatabase.step arith) db)) :
    KeepsBans arith db steps := by
  induction steps generalizing db with
  | nil => exact trivial
  | cons step steps ih =>
      obtain ⟨here, addressedRest⟩ := List.forall_mem_cons.mp addressed
      obtain ⟨laterHere, laterRest⟩ := List.forall_mem_cons.mp later
      refine ⟨keepsBan_of_survives readable sound here (laterHere db) ?_,
        ih (sound.step readable here) addressedRest laterRest fun reached isPrefix => ?_⟩
      · exact survives [step] (List.cons_prefix_cons.mpr ⟨rfl, List.nil_prefix⟩)
      · exact survives (step :: reached) (List.cons_prefix_cons.mpr ⟨rfl, isPrefix⟩)

end Steps

theorem opened_sound (arith : ScoreArith Score) : (PeerDatabase.opened arith).Sound :=
  ⟨rfl, fun _ _ found => absurd found not_found_empty⟩

/-- In every state of a run whose steps keep the bans they set, bans survive a restart, and the
steps do where they survive in every state, as long as no ban ends in the first second. -/
theorem bans_survive_restart_iff (arith : ScoreArith Score) (readable : arith.Readable)
    (steps : List (PeerStep Score)) (addressed : ∀ step ∈ steps, step.Addressed) :
    (KeepsBans arith (PeerDatabase.opened arith) steps →
      ∀ reached, reached <+: steps → SurvivesRestart arith (PeerDatabase.run arith reached)) ∧
    ((∀ step ∈ steps, ∀ db, step.banEnd arith db ≠ some 1) →
      (∀ reached, reached <+: steps → SurvivesRestart arith (PeerDatabase.run arith reached)) →
        KeepsBans arith (PeerDatabase.opened arith) steps) := by
  have sound := opened_sound arith
  have kept : (PeerDatabase.opened arith).BansKept :=
    fun _ _ found => absurd found not_found_empty
  refine ⟨fun keeps reached isPrefix => ?_, keepsBans_of_survives readable sound addressed⟩
  have reachedAddressed : ∀ step ∈ reached, step.Addressed := fun step member =>
    addressed step (isPrefix.subset member)
  obtain ⟨soundThere, keptThere⟩ :=
    run_kept readable reachedAddressed (keeps.prefix_ isPrefix) sound kept
  exact keptThere.survive soundThere readable

/-- Scores that stay whole numbers. -/
def wholeScores : ScoreArith Int where
  literal value := value.floor
  add left right := left + right
  sub left right := left - right
  less left right := left < right
  print := signedDecimal
  read := readInteger

theorem wholeScores_readable : wholeScores.Readable :=
  ⟨signedDecimal_visible, fun score => ⟨score, readInteger_reads score⟩⟩

/-- A peer that was added before it was banned. -/
theorem bans_survive_restart_iff_added :
    SurvivesRestart wholeScores (PeerDatabase.run wholeScores
      [.call (text "10.0.0.1".toList) 8333 1000 (.addPeer 1),
        .call (text "10.0.0.1".toList) 8333 1010 (.banPeer 86400)]) := by
  have visible : Visible (text "10.0.0.1".toList) := by decide +kernel
  have kept : (((PeerDatabase.opened wholeScores).step wholeScores
      (.call (text "10.0.0.1".toList) 8333 1000 (.addPeer 1))).recordAt wholeScores
        (text "10.0.0.1".toList) 8333).address ≠ [] := by
    decide +kernel
  refine (bans_survive_restart_iff wholeScores wholeScores_readable _ ?_).1 ?_ _ List.prefix_rfl
  · intro step member
    rcases List.mem_cons.mp member with rfl | later
    · exact visible
    · cases List.mem_singleton.mp later
      exact visible
  · exact ⟨fun bans => (nomatch bans), fun _ => ⟨kept, by decide⟩, trivial⟩

/-- A peer that was banned before it was added is not banned after a restart. -/
theorem bans_lost_in_restart :
    ¬ ∀ (Score : Type) (arith : ScoreArith Score), arith.Readable →
      ∀ steps : List (PeerStep Score), (∀ step ∈ steps, step.Addressed) →
        SurvivesRestart arith (PeerDatabase.run arith steps) := by
  intro survive
  let step : PeerStep Int := .call (text "10.0.0.1".toList) 8333 1000 (.banPeer 86400)
  have addressed : step.Addressed := (by decide +kernel : Visible (text "10.0.0.1".toList))
  have survives := survive Int wholeScores wholeScores_readable [step] fun other member =>
    List.mem_singleton.mp member ▸ addressed
  have notFirst : step.banEnd wholeScores (PeerDatabase.opened wholeScores) ≠ some 1 := by
    decide
  have keeps := keepsBan_of_survives wholeScores_readable (opened_sound wholeScores) addressed
    notFirst survives
  have missing : ((PeerDatabase.opened wholeScores).recordAt wholeScores
      (text "10.0.0.1".toList) 8333).address = [] := by
    decide +kernel
  exact (keeps rfl).1 missing

end Parthenon.P2p
