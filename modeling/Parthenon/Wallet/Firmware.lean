import Mathlib.Data.Finset.Insert
import Mathlib.Data.List.Lex
import Parthenon.Crypto.Schnorr
import Parthenon.Library.Delimited
import Parthenon.Library.OrderedMap
import Parthenon.Storage.BlockStorage

namespace Parthenon.Wallet.Hardware

open Library Crypto Storage Std

/-! # Firmware verification

A firmware is looked up by its hash.  The database, the keys of the vendors, the revoked keys
and the advisories are all written by calls that may come in any order.
-/

/-- What `std::stoi` throws. -/
inductive StdException
  | outOfRange
deriving DecidableEq, Repr

/-- The tokens that `std::getline` reads: there is none behind the last separator. -/
def getlines (separator : UInt8) (value : Bytes) : List Bytes :=
  let pieces := value.splitOn separator
  if pieces.getLast? = some [] then pieces.dropLast else pieces

/-- `std::stoi` of digits. -/
def stoi (digits : Bytes) : Except StdException Nat :=
  if parseDigits digits < 2 ^ 31 then .ok (parseDigits digits) else .error .outOfRange

/-- The loop over the tokens, with the numbers read before. -/
def parseTokens : List Bytes → List Nat → Except StdException (Option (List Nat))
  | [], out => .ok (if out.length ≠ 3 then none else some out)
  | token :: rest, out =>
      if out.length ≥ 3 || token.isEmpty || !token.all isDigit then .ok none
      else do
        let number ← stoi token
        parseTokens rest (out ++ [number])

def parseSemVer (version : Bytes) : Except StdException (Option (List Nat)) :=
  parseTokens (getlines 46 version) []

def compareNumbers : List Nat → List Nat → Int
  | left :: lefts, right :: rights =>
      if left < right then -1
      else if left > right then 1
      else compareNumbers lefts rights
  | _, _ => 0

/-- Versions that cannot be read are taken for equal. -/
def compareSemVer (lhs rhs : Bytes) : Except StdException Int := do
  match ← parseSemVer lhs with
  | none => return 0
  | some l =>
      match ← parseSemVer rhs with
      | none => return 0
      | some r => return compareNumbers l r

structure FirmwareInfo where
  vendor : Bytes
  model : Bytes
  version : Bytes
  hash : Bytes
  signature : Bytes
  image : Bytes
  buildTimestamp : UInt64
  releaseNotesUrl : Bytes
deriving DecidableEq

structure VendorKeys where
  vendorName : Bytes
  publicKeys : List Bytes
  certificateUrl : Bytes
deriving DecidableEq

inductive VerificationStatus
  | valid | invalidSignature | unknownVendor | hashMismatch | expired | untrusted | error
deriving DecidableEq, Repr

structure VerificationResult where
  status : VerificationStatus
  message : Bytes
  firmwareInfo : FirmwareInfo
  isLatestVersion : Bool
  securityAdvisories : List Bytes

def FirmwareInfo.blank : FirmwareInfo where
  vendor := []
  model := []
  version := []
  hash := []
  signature := []
  image := []
  buildTimestamp := 0
  releaseNotesUrl := []

def VerificationResult.blank : VerificationResult where
  status := .error
  message := []
  firmwareInfo := .blank
  isLatestVersion := false
  securityAdvisories := []

structure FirmwareVerifier where
  vendorKeys : ExtTreeMap Bytes VendorKeys
  revokedVendorKeys : ExtTreeMap Bytes (Finset Bytes)
  knownFirmware : ExtTreeMap Bytes FirmwareInfo
  securityAdvisories : ExtTreeMap Bytes (ExtTreeMap Bytes (List Bytes))

namespace FirmwareVerifier

/-- No vendor has a key at first. -/
def builtIn : List VendorKeys :=
  [{ vendorName := text "Ledger".toList, publicKeys := [],
     certificateUrl := text "https://www.ledger.com/certificates".toList },
   { vendorName := text "Trezor".toList, publicKeys := [],
     certificateUrl := text "https://trezor.io/security".toList },
   { vendorName := text "KeepKey".toList, publicKeys := [],
     certificateUrl := text "https://shapeshift.com/keepkey/security".toList }]

def addVendorKeys (verifier : FirmwareVerifier) (vendorKeys : VendorKeys) : FirmwareVerifier :=
  { verifier with vendorKeys := verifier.vendorKeys.insert vendorKeys.vendorName vendorKeys }

def new : FirmwareVerifier :=
  builtIn.foldl addVendorKeys
    { vendorKeys := ∅, revokedVendorKeys := ∅, knownFirmware := ∅, securityAdvisories := ∅ }

def revokeVendorKey (verifier : FirmwareVerifier) (vendor publicKey : Bytes) : FirmwareVerifier :=
  { verifier with
    revokedVendorKeys := verifier.revokedVendorKeys.insert vendor
      (insert publicKey ((verifier.revokedVendorKeys[vendor]?).getD ∅)) }

def addKnownFirmware (verifier : FirmwareVerifier) (firmwareInfo : FirmwareInfo) : FirmwareVerifier :=
  { verifier with knownFirmware := verifier.knownFirmware.insert firmwareInfo.hash firmwareInfo }

def addSecurityAdvisory (verifier : FirmwareVerifier) (vendor version advisory : Bytes) :
    FirmwareVerifier :=
  let versions := (verifier.securityAdvisories[vendor]?).getD ∅
  { verifier with
    securityAdvisories := verifier.securityAdvisories.insert vendor
      (versions.insert version ((versions[version]?).getD [] ++ [advisory])) }

def isVendorKeyRevoked (verifier : FirmwareVerifier) (vendor publicKey : Bytes) : Bool :=
  match verifier.revokedVendorKeys[vendor]? with
  | none => false
  | some revoked => publicKey ∈ revoked

def getFirmwareInfo (verifier : FirmwareVerifier) (firmwareHash : Bytes) : Option FirmwareInfo :=
  verifier.knownFirmware[firmwareHash]?

def getSecurityAdvisories (verifier : FirmwareVerifier) (vendor version : Bytes) : List Bytes :=
  match verifier.securityAdvisories[vendor]? with
  | none => []
  | some versions => (versions[version]?).getD []

def computeHash (data : Bytes) : Bytes := (SHA256.hash256 data).bytes

/-- The newest version known of a vendor, after one more entry of the database. -/
def newest (vendor : Bytes) (latest : Option Bytes) (entry : Bytes × FirmwareInfo) :
    Except StdException (Option Bytes) :=
  if entry.2.vendor ≠ vendor then .ok latest
  else
    match latest with
    | none => .ok (some entry.2.version)
    | some version => do
        if (← compareSemVer entry.2.version version) > 0 then return some entry.2.version
        else return some version

def checkLatestVersion (verifier : FirmwareVerifier) (vendor currentVersion : Bytes) :
    Except StdException (Option Bytes) := do
  match ← verifier.knownFirmware.toList.foldlM (newest vendor) none with
  | none => return none
  | some latest =>
      if (← compareSemVer latest currentVersion) > 0 then return some latest else return none

section Verification

variable (secp : Secp256k1)

def verifySchnorrSignature (message signature publicKey : Bytes) : Bool :=
  match FixedBytes.ofBytes? 32 message, FixedBytes.ofBytes? Schnorr.signatureSize signature,
    FixedBytes.ofBytes? Schnorr.publicKeySize publicKey with
  | some message, some signature, some publicKey => Schnorr.verify secp publicKey message signature
  | _, _, _ => false

def verifySignature (verifier : FirmwareVerifier) (firmware signature vendor : Bytes) : Bool :=
  match verifier.vendorKeys[vendor]? with
  | none => false
  | some keys =>
      keys.publicKeys.any fun publicKey =>
        !verifier.isVendorKeyRevoked vendor publicKey &&
          verifySchnorrSignature secp (computeHash firmware) signature publicKey

def verifyFirmware (verifier : FirmwareVerifier) (deviceFirmware vendor : Bytes) :
    Except StdException VerificationResult :=
  if (verifier.vendorKeys[vendor]?).isNone then
    .ok { VerificationResult.blank with
      status := .unknownVendor
      message := text "Vendor not recognized: ".toList ++ vendor }
  else
    match verifier.getFirmwareInfo (computeHash deviceFirmware) with
    | none =>
        .ok { VerificationResult.blank with
          status := .untrusted
          message := text "Firmware not found in official database".toList }
    | some info =>
        if !verifier.verifySignature secp deviceFirmware info.signature vendor then
          .ok { VerificationResult.blank with
            firmwareInfo := info
            status := .invalidSignature
            message := text "Firmware signature verification failed".toList }
        else do
          let latest ← verifier.checkLatestVersion vendor info.version
          let result := { VerificationResult.blank with
            firmwareInfo := info
            isLatestVersion := latest.isNone
            securityAdvisories := verifier.getSecurityAdvisories vendor info.version }
          if !result.securityAdvisories.isEmpty then
            return { result with
              status := .expired
              message := text "Firmware has known security vulnerabilities".toList }
          else
            return { result with
              status := .valid
              message := text "Firmware verified successfully".toList }

/-- Whether both versions can be read; the second one is not where the first one cannot be. -/
def bothRead (currentVersion candidateVersion : Bytes) : Except StdException Bool := do
  match ← parseSemVer currentVersion with
  | none => return false
  | some _ => return (← parseSemVer candidateVersion).isSome

def verifyFirmwareUpdate (verifier : FirmwareVerifier) (deviceFirmware vendor currentVersion : Bytes) :
    Except StdException VerificationResult := do
  let result ← verifier.verifyFirmware secp deviceFirmware vendor
  if result.status ≠ .valid then return result
  else if result.firmwareInfo.version.isEmpty then
    return { result with
      status := .error
      message := text "Firmware version missing for rollback check".toList }
  else do
    let read ← bothRead currentVersion result.firmwareInfo.version
    if !read then
      return { result with
        status := .error
        message := text "Invalid firmware version format".toList }
    else do
      let order ← compareSemVer result.firmwareInfo.version currentVersion
      if order < 0 then
        return { result with
          status := .expired
          message := text "Firmware rollback detected".toList
          isLatestVersion := false }
      else return result

/-- Nothing is asked of the version here. -/
def installUpdate (verifier : FirmwareVerifier) (deviceId firmware : Bytes) : Except StdException Bool :=
  if deviceId.isEmpty || firmware.isEmpty then .ok false
  else
    match verifier.getFirmwareInfo (computeHash firmware) with
    | none => .ok false
    | some info => do
        let result ← verifier.verifyFirmware secp firmware info.vendor
        return result.status = .valid

end Verification

end FirmwareVerifier

/-! ## Versions -/

/-- A part of a version: digits of a number that an `int` holds. -/
def IsNumeral (part : Bytes) : Prop :=
  part ≠ [] ∧ part.all isDigit = true ∧ parseDigits part < 2 ^ 31

/-- Three numerals with points between them, and maybe one behind them. -/
def IsVersion (version : Bytes) (numbers : List Nat) : Prop :=
  ∃ major minor patch ending, version = major ++ 46 :: (minor ++ 46 :: (patch ++ ending)) ∧
    (ending = [] ∨ ending = [46]) ∧ (∀ part ∈ [major, minor, patch], IsNumeral part) ∧
    numbers = [parseDigits major, parseDigits minor, parseDigits patch]

/-- No number in the version is too large for an `int`. -/
def Readable (version : Bytes) : Prop :=
  ∀ token ∈ getlines 46 version, token.all isDigit = true → parseDigits token < 2 ^ 31

theorem IsNumeral.plain {part : Bytes} (numeral : IsNumeral part) : (46 : UInt8) ∉ part := by
  intro member
  exact absurd (List.all_eq_true.mp numeral.2.1 46 member) (by decide)

theorem getlines_eq_iff {version major minor patch : Bytes}
    (plain : ∀ part ∈ [major, minor, patch], (46 : UInt8) ∉ part) (some_ : patch ≠ []) :
    getlines 46 version = [major, minor, patch] ↔
      ∃ ending, version = major ++ 46 :: (minor ++ 46 :: (patch ++ ending)) ∧
        (ending = [] ∨ ending = [46]) := by
  have joined : [46].intercalate [major, minor, patch] = major ++ 46 :: (minor ++ 46 :: patch) := by
    simp [List.intercalate_cons_cons]
  have joinedMore : [46].intercalate [major, minor, patch, []] =
      major ++ 46 :: (minor ++ 46 :: (patch ++ [46])) := by
    simp [List.intercalate_cons_cons]
  rw [getlines]
  constructor
  · intro tokens
    have whole : [46].intercalate (version.splitOn 46) = version := List.intercalate_splitOn 46
    split at tokens
    · rename_i last
      have pieces : version.splitOn 46 = [major, minor, patch, []] := by
        have rest := List.dropLast_append_getLast? [] last
        rw [← rest, tokens]
        rfl
      rw [pieces, joinedMore] at whole
      exact ⟨[46], whole.symm, .inr rfl⟩
    · rw [tokens, joined] at whole
      exact ⟨[], by rw [List.append_nil, whole], .inl rfl⟩
  · rintro ⟨ending, rfl, rfl | rfl⟩
    · have pieces := List.splitOn_intercalate 46 plain (by simp)
      rw [joined] at pieces
      rw [List.append_nil, pieces, if_neg]
      simpa using some_
    · have plainMore : ∀ part ∈ [major, minor, patch] ++ [[]], (46 : UInt8) ∉ part :=
        List.forall_mem_append.mpr ⟨plain, by simp⟩
      have pieces := List.splitOn_intercalate 46 plainMore (by simp)
      rw [List.cons_append, List.cons_append, List.cons_append, List.nil_append, joinedMore] at pieces
      rw [pieces]
      rfl

theorem parseTokens_eq_some_iff {tokens : List Bytes} {out numbers : List Nat} :
    parseTokens tokens out = .ok (some numbers) ↔
      (∀ token ∈ tokens, IsNumeral token) ∧ numbers = out ++ tokens.map parseDigits ∧
        numbers.length = 3 := by
  induction tokens generalizing out with
  | nil =>
      rw [parseTokens]
      by_cases three : out.length = 3
      · rw [if_neg (not_not.mpr three)]
        simp only [Except.ok.injEq, Option.some.injEq, List.not_mem_nil, false_implies, implies_true,
          List.map_nil, List.append_nil, true_and]
        constructor
        · rintro rfl
          exact ⟨rfl, three⟩
        · exact fun same => same.1.symm
      · rw [if_pos three]
        simp only [Except.ok.injEq, reduceCtorEq, List.map_nil, List.append_nil, false_iff, not_and]
        rintro _ rfl
        exact three
  | cons token rest ih =>
      rw [parseTokens]
      split
      · rename_i refused
        simp only [Except.ok.injEq, reduceCtorEq, false_iff, not_and]
        intro numerals isOut
        have numeral := numerals token List.mem_cons_self
        simp only [Bool.or_eq_true, decide_eq_true_eq, List.isEmpty_iff, numeral.1, or_false,
          numeral.2.1, Bool.not_true, Bool.false_eq_true] at refused
        rw [isOut, List.length_append, List.map_cons, List.length_cons]
        omega
      · rename_i taken
        simp only [Bool.or_eq_true, decide_eq_true_eq, List.isEmpty_iff, Bool.not_eq_true', not_or,
          Bool.not_eq_false] at taken
        obtain ⟨⟨_, some_⟩, digits⟩ := taken
        rw [stoi]
        by_cases fits : parseDigits token < 2 ^ 31
        · rw [if_pos fits]
          change parseTokens rest (out ++ [parseDigits token]) = _ ↔ _
          rw [ih, List.forall_mem_cons, List.map_cons, List.append_assoc, List.singleton_append]
          simp only [IsNumeral, ne_eq, some_, not_false_eq_true, digits, fits, and_self, true_and]
        · rw [if_neg fits]
          refine iff_of_false (fun none => by cases none) ?_
          rintro ⟨numerals, _⟩
          exact fits (numerals token List.mem_cons_self).2.2

/-- The parser reads exactly the versions. -/
theorem parseSemVer_eq_some_iff {version : Bytes} {numbers : List Nat} :
    parseSemVer version = .ok (some numbers) ↔ IsVersion version numbers := by
  rw [parseSemVer, parseTokens_eq_some_iff, List.nil_append]
  constructor
  · rintro ⟨numerals, rfl, three⟩
    rw [List.length_map] at three
    obtain ⟨major, minor, patch, isTokens⟩ := List.length_eq_three.mp three
    rw [isTokens] at numerals
    obtain ⟨ending, isVersion, isEnding⟩ :=
      (getlines_eq_iff (fun part member => (numerals part member).plain)
        (numerals patch (by simp)).1).mp isTokens
    exact ⟨major, minor, patch, ending, isVersion, isEnding, numerals, by rw [isTokens]; rfl⟩
  · rintro ⟨major, minor, patch, ending, isVersion, isEnding, numerals, rfl⟩
    have tokens := (getlines_eq_iff (fun part member => (numerals part member).plain)
      (numerals patch (by simp)).1).mpr ⟨ending, isVersion, isEnding⟩
    rw [tokens]
    exact ⟨numerals, rfl, rfl⟩

/-- A point may follow the last number. -/
example : parseSemVer (text "1.20.3.".toList) = .ok (some [1, 20, 3]) := by decide +kernel

theorem parseTokens_returns {tokens : List Bytes} {out : List Nat}
    (readable : ∀ token ∈ tokens, token.all isDigit = true → parseDigits token < 2 ^ 31) :
    ∃ read, parseTokens tokens out = .ok read := by
  induction tokens generalizing out with
  | nil => exact ⟨_, rfl⟩
  | cons token rest ih =>
      obtain ⟨here, later⟩ := List.forall_mem_cons.mp readable
      rw [parseTokens]
      split
      · exact ⟨none, rfl⟩
      · rename_i taken
        simp only [Bool.or_eq_true, Bool.not_eq_true', not_or, Bool.not_eq_false] at taken
        rw [stoi, if_pos (here taken.2)]
        exact ih later

theorem parseSemVer_returns {version : Bytes} (readable : Readable version) :
    ∃ read, parseSemVer version = .ok read := parseTokens_returns readable

theorem IsVersion.numbers_length {version : Bytes} {numbers : List Nat}
    (isVersion : IsVersion version numbers) : numbers.length = 3 := by
  obtain ⟨_, _, _, _, _, _, _, rfl⟩ := isVersion
  rfl

/-- Numbers compare as in a dictionary. -/
theorem compareNumbers_neg {left right : List Nat} (same : left.length = right.length) :
    compareNumbers left right < 0 ↔ left < right := by
  induction left generalizing right with
  | nil =>
      cases right with
      | nil => simp [compareNumbers]
      | cons first others => cases same
  | cons first others ih =>
      cases right with
      | nil => cases same
      | cons other rest =>
          rw [compareNumbers, List.cons_lt_cons_iff]
          have later := ih (Nat.succ.inj same)
          rcases Nat.lt_trichotomy first other with less | rfl | greater
          · rw [if_pos less]
            omega
          · simpa using later
          · rw [if_neg (by omega), if_pos greater]
            omega

theorem IsVersion.nonempty {version : Bytes} {numbers : List Nat} (isVersion : IsVersion version numbers) :
    version ≠ [] := by
  obtain ⟨major, _, _, _, rfl, _⟩ := isVersion
  exact List.append_ne_nil_of_right_ne_nil major (List.cons_ne_nil _ _)

theorem IsVersion.unique {version : Bytes} {first second : List Nat} (isFirst : IsVersion version first)
    (isSecond : IsVersion version second) : first = second := by
  have same := (parseSemVer_eq_some_iff.mpr isFirst).symm.trans (parseSemVer_eq_some_iff.mpr isSecond)
  simpa using same

theorem compareSemVer_versions {lhs rhs : Bytes} {left right : List Nat}
    (isLeft : IsVersion lhs left) (isRight : IsVersion rhs right) :
    compareSemVer lhs rhs = .ok (compareNumbers left right) := by
  rw [compareSemVer, parseSemVer_eq_some_iff.mpr isLeft, parseSemVer_eq_some_iff.mpr isRight]
  rfl

theorem compareSemVer_returns {lhs rhs : Bytes} (left : Readable lhs) (right : Readable rhs) :
    ∃ order, compareSemVer lhs rhs = .ok order := by
  obtain ⟨read, isRead⟩ := parseSemVer_returns left
  obtain ⟨other, isOther⟩ := parseSemVer_returns right
  rw [compareSemVer, isRead, isOther]
  cases read with
  | none => exact ⟨0, rfl⟩
  | some numbers =>
      cases other with
      | none => exact ⟨0, rfl⟩
      | some numbers => exact ⟨_, rfl⟩

/-! ## Runs

A verifier reflects the calls made to it: who wrote last to a vendor and to a hash, and
everything that was revoked and reported.
-/

inductive FirmwareCall
  | addVendorKeys (keys : VendorKeys)
  | revokeVendorKey (vendor publicKey : Bytes)
  | addKnownFirmware (info : FirmwareInfo)
  | addSecurityAdvisory (vendor version advisory : Bytes)

namespace FirmwareCall

def keys? : FirmwareCall → Option (Update Bytes VendorKeys)
  | addVendorKeys keys => some (keys.vendorName, some keys)
  | _ => none

def firmware? : FirmwareCall → Option (Update Bytes FirmwareInfo)
  | addKnownFirmware info => some (info.hash, some info)
  | _ => none

/-- The keys added last for a vendor. -/
def keysOf (calls : List FirmwareCall) (vendor : Bytes) : Option VendorKeys :=
  (lastWrite (calls.filterMap keys?) vendor).join

/-- The firmware recorded last under a hash. -/
def firmwareOf (calls : List FirmwareCall) (hash : Bytes) : Option FirmwareInfo :=
  (lastWrite (calls.filterMap firmware?) hash).join

theorem keysOf_add (calls : List FirmwareCall) (keys : VendorKeys) (vendor : Bytes) :
    keysOf (calls ++ [addVendorKeys keys]) vendor =
      if keys.vendorName = vendor then some keys else keysOf calls vendor := by
  rw [keysOf, List.filterMap_append, lastWrite_append]
  by_cases same : keys.vendorName = vendor <;> simp [keysOf, keys?, lastWrite, same]

theorem keysOf_other {calls : List FirmwareCall} {call : FirmwareCall} (other : call.keys? = none)
    (vendor : Bytes) : keysOf (calls ++ [call]) vendor = keysOf calls vendor := by
  rw [keysOf, List.filterMap_append, List.filterMap_cons_none other, List.filterMap_nil,
    List.append_nil, keysOf]

theorem firmwareOf_add (calls : List FirmwareCall) (info : FirmwareInfo) (hash : Bytes) :
    firmwareOf (calls ++ [addKnownFirmware info]) hash =
      if info.hash = hash then some info else firmwareOf calls hash := by
  rw [firmwareOf, List.filterMap_append, lastWrite_append]
  by_cases same : info.hash = hash <;> simp [firmwareOf, firmware?, lastWrite, same]

theorem firmwareOf_other {calls : List FirmwareCall} {call : FirmwareCall}
    (other : call.firmware? = none) (hash : Bytes) :
    firmwareOf (calls ++ [call]) hash = firmwareOf calls hash := by
  rw [firmwareOf, List.filterMap_append, List.filterMap_cons_none other, List.filterMap_nil,
    List.append_nil, firmwareOf]

/-- What is recorded was given. -/
theorem mem_of_firmwareOf {calls : List FirmwareCall} {hash : Bytes} {info : FirmwareInfo}
    (recorded : firmwareOf calls hash = some info) : addKnownFirmware info ∈ calls := by
  have wrote := mem_of_lastWrite (Option.join_eq_some_iff.mp recorded)
  obtain ⟨call, member, isWrite⟩ := List.mem_filterMap.mp wrote
  cases call with
  | addKnownFirmware given =>
      cases isWrite
      exact member
  | addVendorKeys | revokeVendorKey | addSecurityAdvisory => cases isWrite

end FirmwareCall

namespace FirmwareVerifier

def empty : FirmwareVerifier where
  vendorKeys := ∅
  revokedVendorKeys := ∅
  knownFirmware := ∅
  securityAdvisories := ∅

def apply (verifier : FirmwareVerifier) : FirmwareCall → FirmwareVerifier
  | .addVendorKeys keys => verifier.addVendorKeys keys
  | .revokeVendorKey vendor publicKey => verifier.revokeVendorKey vendor publicKey
  | .addKnownFirmware info => verifier.addKnownFirmware info
  | .addSecurityAdvisory vendor version advisory => verifier.addSecurityAdvisory vendor version advisory

structure Reflects (verifier : FirmwareVerifier) (calls : List FirmwareCall) : Prop where
  keys : ∀ vendor, verifier.vendorKeys[vendor]? = FirmwareCall.keysOf calls vendor
  firmware : ∀ hash, verifier.knownFirmware[hash]? = FirmwareCall.firmwareOf calls hash
  revoked : ∀ vendor publicKey, verifier.isVendorKeyRevoked vendor publicKey = true ↔
    .revokeVendorKey vendor publicKey ∈ calls
  advisories : ∀ vendor version advisory, advisory ∈ verifier.getSecurityAdvisories vendor version ↔
    .addSecurityAdvisory vendor version advisory ∈ calls

theorem empty_reflects : Reflects empty [] where
  keys _ := ExtTreeMap.getElem?_empty
  firmware _ := ExtTreeMap.getElem?_empty
  revoked vendor publicKey := by simp [isVendorKeyRevoked, empty]
  advisories vendor version advisory := by simp [getSecurityAdvisories, empty]

theorem isVendorKeyRevoked_revoke (verifier : FirmwareVerifier) (vendor publicKey other key : Bytes) :
    (verifier.revokeVendorKey vendor publicKey).isVendorKeyRevoked other key = true ↔
      verifier.isVendorKeyRevoked other key = true ∨ other = vendor ∧ key = publicKey := by
  rw [isVendorKeyRevoked, isVendorKeyRevoked, revokeVendorKey]
  dsimp only
  rw [getElem?_insert_eq]
  by_cases same : vendor = other
  · subst same
    rw [if_pos rfl]
    cases verifier.revokedVendorKeys[vendor]? <;> simp [or_comm]
  · simp [same, Ne.symm same]

theorem getSecurityAdvisories_add (verifier : FirmwareVerifier)
    (vendor version advisory other edition : Bytes) :
    (verifier.addSecurityAdvisory vendor version advisory).getSecurityAdvisories other edition =
      if vendor = other ∧ version = edition then
        verifier.getSecurityAdvisories other edition ++ [advisory]
      else verifier.getSecurityAdvisories other edition := by
  rw [getSecurityAdvisories, getSecurityAdvisories, addSecurityAdvisory]
  dsimp only
  rw [getElem?_insert_eq]
  by_cases same : vendor = other
  · subst same
    rw [if_pos rfl]
    dsimp only
    rw [getElem?_insert_eq]
    by_cases sameVersion : version = edition
    · subst sameVersion
      rw [if_pos rfl, if_pos ⟨rfl, rfl⟩]
      cases verifier.securityAdvisories[vendor]? <;> simp
    · rw [if_neg sameVersion, if_neg fun both => sameVersion both.2]
      cases verifier.securityAdvisories[vendor]? <;> simp
  · rw [if_neg same, if_neg fun both => same both.1]

section Frames

variable {verifier : FirmwareVerifier} {calls : List FirmwareCall} {call : FirmwareCall}

theorem Reflects.keys_other (reflects : Reflects verifier calls) (other : call.keys? = none)
    (vendor : Bytes) : verifier.vendorKeys[vendor]? = FirmwareCall.keysOf (calls ++ [call]) vendor := by
  rw [FirmwareCall.keysOf_other other, reflects.keys]

theorem Reflects.firmware_other (reflects : Reflects verifier calls) (other : call.firmware? = none)
    (hash : Bytes) : verifier.knownFirmware[hash]? = FirmwareCall.firmwareOf (calls ++ [call]) hash := by
  rw [FirmwareCall.firmwareOf_other other, reflects.firmware]

theorem Reflects.revoked_other (reflects : Reflects verifier calls)
    (other : ∀ vendor publicKey, .revokeVendorKey vendor publicKey ≠ call) (vendor publicKey : Bytes) :
    verifier.isVendorKeyRevoked vendor publicKey = true ↔
      .revokeVendorKey vendor publicKey ∈ calls ++ [call] := by
  rw [List.mem_append, ← reflects.revoked, List.mem_singleton]
  exact (or_iff_left (other vendor publicKey)).symm

theorem Reflects.advisories_other (reflects : Reflects verifier calls)
    (other : ∀ vendor version advisory, .addSecurityAdvisory vendor version advisory ≠ call)
    (vendor version advisory : Bytes) :
    advisory ∈ verifier.getSecurityAdvisories vendor version ↔
      .addSecurityAdvisory vendor version advisory ∈ calls ++ [call] := by
  rw [List.mem_append, ← reflects.advisories, List.mem_singleton]
  exact (or_iff_left (other vendor version advisory)).symm

end Frames

theorem Reflects.apply {verifier : FirmwareVerifier} {calls : List FirmwareCall}
    (reflects : Reflects verifier calls) (call : FirmwareCall) :
    Reflects (verifier.apply call) (calls ++ [call]) := by
  cases call with
  | addVendorKeys keys =>
      refine ⟨fun vendor => ?_, reflects.firmware_other rfl, reflects.revoked_other nofun,
        reflects.advisories_other nofun⟩
      rw [FirmwareCall.keysOf_add, ← reflects.keys]
      exact getElem?_insert_eq _ _ _ _
  | revokeVendorKey name revoked =>
      refine ⟨reflects.keys_other rfl, reflects.firmware_other rfl, fun vendor publicKey => ?_,
        reflects.advisories_other nofun⟩
      rw [FirmwareVerifier.apply, isVendorKeyRevoked_revoke, List.mem_append, ← reflects.revoked,
        List.mem_singleton, FirmwareCall.revokeVendorKey.injEq]
  | addKnownFirmware info =>
      refine ⟨reflects.keys_other rfl, fun hash => ?_, reflects.revoked_other nofun,
        reflects.advisories_other nofun⟩
      rw [FirmwareCall.firmwareOf_add, ← reflects.firmware]
      exact getElem?_insert_eq _ _ _ _
  | addSecurityAdvisory name edition reported =>
      refine ⟨reflects.keys_other rfl, reflects.firmware_other rfl, reflects.revoked_other nofun,
        fun vendor version advisory => ?_⟩
      rw [FirmwareVerifier.apply, getSecurityAdvisories_add, List.mem_append, ← reflects.advisories,
        List.mem_singleton, FirmwareCall.addSecurityAdvisory.injEq]
      split
      · rename_i same
        obtain ⟨rfl, rfl⟩ := same
        rw [List.mem_append, List.mem_singleton]
        exact or_congr_right ⟨fun isNew => ⟨rfl, rfl, isNew⟩, fun isNew => isNew.2.2⟩
      · rename_i other
        exact (or_iff_left fun isNew => other ⟨isNew.1.symm, isNew.2.1.symm⟩).symm

/-- The calls that a verifier has behind it: those of its construction come first. -/
def history (calls : List FirmwareCall) : List FirmwareCall := builtIn.map .addVendorKeys ++ calls

def after (calls : List FirmwareCall) : FirmwareVerifier := calls.foldl apply new

theorem run_reflects (calls : List FirmwareCall) : Reflects (calls.foldl apply empty) calls := by
  induction calls using List.reverseRecOn with
  | nil => exact empty_reflects
  | append_singleton calls call ih =>
      rw [List.foldl_concat]
      exact ih.apply call

theorem after_reflects (calls : List FirmwareCall) : Reflects (after calls) (history calls) := by
  have reflects := run_reflects (history calls)
  rw [history, List.foldl_append, List.foldl_map] at reflects
  exact reflects

theorem firmwareOf_history (calls : List FirmwareCall) (hash : Bytes) :
    FirmwareCall.firmwareOf (history calls) hash = FirmwareCall.firmwareOf calls hash := by
  rw [FirmwareCall.firmwareOf, FirmwareCall.firmwareOf, history, List.filterMap_append]
  rfl

theorem mem_history {calls : List FirmwareCall} {call : FirmwareCall} (other : call.keys? = none) :
    call ∈ history calls ↔ call ∈ calls := by
  rw [history, List.mem_append]
  refine ⟨fun member => member.resolve_left fun opening => ?_, .inr⟩
  obtain ⟨keys, _, rfl⟩ := List.mem_map.mp opening
  cases other

/-! ## The newest version -/

theorem newest_returns {vendor : Bytes} {latest : Option Bytes} {entry : Bytes × FirmwareInfo}
    (readableLatest : ∀ version ∈ latest, Readable version) (readable : Readable entry.2.version) :
    ∃ next, newest vendor latest entry = .ok next ∧ ∀ version ∈ next, Readable version := by
  have isEntry : ∀ version ∈ some entry.2.version, Readable version := by
    rintro _ ⟨⟩
    exact readable
  unfold newest
  split
  · exact ⟨latest, rfl, readableLatest⟩
  · cases latest with
    | none => exact ⟨_, rfl, isEntry⟩
    | some version =>
        obtain ⟨order, compared⟩ := compareSemVer_returns readable (readableLatest version rfl)
        dsimp only
        rw [compared]
        change ∃ next, (if order > 0 then _ else _) = _ ∧ _
        split
        · exact ⟨_, rfl, isEntry⟩
        · exact ⟨_, rfl, readableLatest⟩

theorem foldlM_newest_returns {vendor : Bytes} {entries : List (Bytes × FirmwareInfo)}
    {latest : Option Bytes} (readableLatest : ∀ version ∈ latest, Readable version)
    (readable : ∀ entry ∈ entries, Readable entry.2.version) :
    ∃ last, entries.foldlM (newest vendor) latest = .ok last ∧ ∀ version ∈ last, Readable version := by
  induction entries generalizing latest with
  | nil => exact ⟨latest, rfl, readableLatest⟩
  | cons entry rest ih =>
      obtain ⟨here, later⟩ := List.forall_mem_cons.mp readable
      obtain ⟨next, isNext, readableNext⟩ := newest_returns readableLatest here
      rw [List.foldlM_cons, isNext]
      exact ih readableNext later

theorem checkLatestVersion_returns {verifier : FirmwareVerifier} {version : Bytes}
    (readable : ∀ (hash : Bytes) info, verifier.knownFirmware[hash]? = some info → Readable info.version)
    (isReadable : Readable version) (vendor : Bytes) :
    ∃ latest, verifier.checkLatestVersion vendor version = .ok latest := by
  have entries : ∀ entry ∈ verifier.knownFirmware.toList, Readable entry.2.version :=
    fun entry member => readable entry.1 entry.2 (ExtTreeMap.mem_toList_iff_getElem?_eq_some.mp member)
  obtain ⟨last, isLast, readableLast⟩ := @foldlM_newest_returns vendor _ none nofun entries
  rw [checkLatestVersion, isLast]
  cases last with
  | none => exact ⟨none, rfl⟩
  | some newest =>
      obtain ⟨order, compared⟩ := compareSemVer_returns (readableLast newest rfl) isReadable
      change ∃ latest, (compareSemVer newest version >>= _) = _
      rw [compared]
      change ∃ latest, (if order > 0 then _ else _) = _
      split <;> exact ⟨_, rfl⟩

/-! ## What passes -/

section Acceptance

variable (secp : Secp256k1)

/-- The image is recorded under its hash, signed with a key of the vendor that was never
revoked, and its version was never reported. -/
structure Official (calls : List FirmwareCall) (image vendor : Bytes) (info : FirmwareInfo) : Prop where
  recorded : FirmwareCall.firmwareOf calls (computeHash image) = some info
  signed : ∃ keys, FirmwareCall.keysOf (history calls) vendor = some keys ∧
    ∃ publicKey ∈ keys.publicKeys, .revokeVendorKey vendor publicKey ∉ calls ∧
      verifySchnorrSignature secp (computeHash image) info.signature publicKey = true
  unreported : ∀ advisory, .addSecurityAdvisory vendor info.version advisory ∉ calls

/-- Both are versions, and the second one is not below the first one. -/
def Advances (currentVersion candidateVersion : Bytes) : Prop :=
  ∃ current candidate, IsVersion currentVersion current ∧ IsVersion candidateVersion candidate ∧
    ¬ candidate < current

variable {secp} {calls : List FirmwareCall} {image vendor : Bytes}

theorem verifySignature_after {signature : Bytes} :
    (after calls).verifySignature secp image signature vendor = true ↔
      ∃ keys, FirmwareCall.keysOf (history calls) vendor = some keys ∧
        ∃ publicKey ∈ keys.publicKeys, .revokeVendorKey vendor publicKey ∉ calls ∧
          verifySchnorrSignature secp (computeHash image) signature publicKey = true := by
  have reflects := after_reflects calls
  have standing (publicKey : Bytes) : (after calls).isVendorKeyRevoked vendor publicKey = false ↔
      .revokeVendorKey vendor publicKey ∉ calls := by
    rw [← Bool.not_eq_true, reflects.revoked, mem_history rfl]
  rw [verifySignature, reflects.keys]
  cases FirmwareCall.keysOf (history calls) vendor with
  | none => simp
  | some keys => simp [standing]

theorem getSecurityAdvisories_after {version : Bytes} :
    (after calls).getSecurityAdvisories vendor version = [] ↔
      ∀ advisory, .addSecurityAdvisory vendor version advisory ∉ calls := by
  rw [List.eq_nil_iff_forall_not_mem]
  exact forall_congr' fun advisory =>
    not_congr (((after_reflects calls).advisories _ _ _).trans (mem_history rfl))

theorem getFirmwareInfo_after {hash : Bytes} :
    (after calls).getFirmwareInfo hash = FirmwareCall.firmwareOf calls hash :=
  ((after_reflects calls).firmware hash).trans (firmwareOf_history calls hash)

theorem Official.eq_of_recorded {info other : FirmwareInfo}
    (official : Official secp calls image vendor info)
    (recorded : FirmwareCall.firmwareOf calls (computeHash image) = some other) : info = other :=
  Option.some.inj (official.recorded.symm.trans recorded)

variable (secp calls image vendor) in
/-- The report tells whether the image is official, and names the firmware that it is. -/
structure Judges (result : VerificationResult) : Prop where
  valid_iff : result.status = .valid ↔ ∃ info, Official secp calls image vendor info
  names : ∀ info, Official secp calls image vendor info → result.firmwareInfo = info

theorem Judges.refuses {result : VerificationResult} (invalid : result.status ≠ .valid)
    (unofficial : ∀ info, ¬ Official secp calls image vendor info) :
    Judges secp calls image vendor result where
  valid_iff := iff_of_false invalid fun ⟨info, official⟩ => unofficial info official
  names info official := absurd official (unofficial info)

theorem Judges.accepts {result : VerificationResult} (valid : result.status = .valid)
    (official : Official secp calls image vendor result.firmwareInfo) :
    Judges secp calls image vendor result where
  valid_iff := iff_of_true valid ⟨_, official⟩
  names _ other := official.eq_of_recorded other.recorded

theorem verifyFirmware_judges {result : VerificationResult}
    (returned : (after calls).verifyFirmware secp image vendor = .ok result) :
    Judges secp calls image vendor result := by
  rw [verifyFirmware, (after_reflects calls).keys, getFirmwareInfo_after] at returned
  cases isKeys : FirmwareCall.keysOf (history calls) vendor with
  | none =>
      rw [isKeys, Option.isNone_none, if_pos rfl] at returned
      cases returned
      refine .refuses nofun fun info official => ?_
      obtain ⟨keys, found, _⟩ := official.signed
      rw [isKeys] at found
      cases found
  | some keys =>
      rw [isKeys, Option.isNone_some, if_neg Bool.false_ne_true] at returned
      cases isInfo : FirmwareCall.firmwareOf calls (computeHash image) with
      | none =>
          rw [isInfo] at returned
          cases returned
          refine .refuses nofun fun info official => ?_
          have recorded := official.recorded
          rw [isInfo] at recorded
          cases recorded
      | some info =>
          rw [isInfo] at returned
          dsimp only at returned
          split at returned
          · rename_i refused
            cases returned
            refine .refuses nofun fun other official => ?_
            obtain rfl := official.eq_of_recorded isInfo
            rw [verifySignature_after.mpr official.signed] at refused
            cases refused
          · rename_i accepted
            have signed := verifySignature_after.mp (by simpa using accepted)
            cases isLatest : (after calls).checkLatestVersion vendor info.version with
            | error thrown =>
                rw [isLatest] at returned
                cases returned
            | ok latest =>
                rw [isLatest] at returned
                change (if _ then _ else _) = _ at returned
                split at returned
                · rename_i reported
                  cases returned
                  refine .refuses nofun fun other official => ?_
                  obtain rfl := official.eq_of_recorded isInfo
                  rw [getSecurityAdvisories_after.mpr official.unreported] at reported
                  cases reported
                · rename_i unreported
                  cases returned
                  have none_ := getSecurityAdvisories_after.mp (by simpa using unreported)
                  exact .accepts rfl ⟨isInfo, signed, none_⟩

/-- Every version that the calls recorded can be read. -/
def ReadsAll (calls : List FirmwareCall) : Prop :=
  ∀ info, .addKnownFirmware info ∈ calls → Readable info.version

theorem verifyFirmware_returns (readable : ReadsAll calls) :
    ∃ result, (after calls).verifyFirmware secp image vendor = .ok result := by
  have known (hash : Bytes) (info : FirmwareInfo)
      (recorded : (after calls).knownFirmware[hash]? = some info) : Readable info.version := by
    have isInfo : FirmwareCall.firmwareOf calls hash = some info :=
      getFirmwareInfo_after.symm.trans recorded
    exact readable info (FirmwareCall.mem_of_firmwareOf isInfo)
  rw [verifyFirmware]
  split
  · exact ⟨_, rfl⟩
  · cases isInfo : (after calls).getFirmwareInfo (computeHash image) with
    | none => exact ⟨_, rfl⟩
    | some info =>
        dsimp only
        split
        · exact ⟨_, rfl⟩
        · obtain ⟨latest, isLatest⟩ := checkLatestVersion_returns known (known _ _ isInfo) vendor
          rw [isLatest]
          change ∃ result,
            (if !((after calls).getSecurityAdvisories vendor info.version).isEmpty then _ else _) = _
          split <;> exact ⟨_, rfl⟩

theorem bothRead_iff {currentVersion candidateVersion : Bytes} {read : Bool}
    (returned : bothRead currentVersion candidateVersion = .ok read) :
    read = true ↔ (∃ current, IsVersion currentVersion current) ∧
      ∃ candidate, IsVersion candidateVersion candidate := by
  simp only [← parseSemVer_eq_some_iff]
  rw [bothRead] at returned
  cases isCurrent : parseSemVer currentVersion with
  | error thrown =>
      rw [isCurrent] at returned
      cases returned
  | ok current =>
      rw [isCurrent] at returned
      cases current with
      | none =>
          cases returned
          simp
      | some numbers =>
          change (parseSemVer candidateVersion >>= fun candidate => pure candidate.isSome) = _ at returned
          cases isCandidate : parseSemVer candidateVersion with
          | error thrown =>
              rw [isCandidate] at returned
              cases returned
          | ok candidate =>
              rw [isCandidate] at returned
              cases returned
              simp [Option.isSome_iff_exists]

theorem bothRead_returns {currentVersion candidateVersion : Bytes} (readable : Readable currentVersion)
    (readableCandidate : Readable candidateVersion) :
    ∃ read, bothRead currentVersion candidateVersion = .ok read := by
  obtain ⟨current, isCurrent⟩ := parseSemVer_returns readable
  obtain ⟨candidate, isCandidate⟩ := parseSemVer_returns readableCandidate
  rw [bothRead, isCurrent]
  cases current with
  | none => exact ⟨false, rfl⟩
  | some numbers =>
      change ∃ read, (parseSemVer candidateVersion >>= _) = _
      rw [isCandidate]
      exact ⟨candidate.isSome, rfl⟩

theorem not_advances_of_unread {currentVersion candidateVersion : Bytes}
    (isRead : bothRead currentVersion candidateVersion = .ok false) :
    ¬ Advances currentVersion candidateVersion := by
  rintro ⟨current, candidate, isCurrent, isCandidate, _⟩
  exact absurd ((bothRead_iff isRead).mpr ⟨⟨current, isCurrent⟩, candidate, isCandidate⟩) (by decide)

theorem compareSemVer_of_read {currentVersion candidateVersion : Bytes}
    (isRead : bothRead currentVersion candidateVersion = .ok true) :
    ∃ order, compareSemVer candidateVersion currentVersion = .ok order ∧
      (order < 0 ↔ ¬ Advances currentVersion candidateVersion) := by
  obtain ⟨⟨current, isCurrent⟩, candidate, isCandidate⟩ := (bothRead_iff isRead).mp rfl
  have three := isCandidate.numbers_length.trans isCurrent.numbers_length.symm
  refine ⟨_, compareSemVer_versions isCandidate isCurrent, ?_⟩
  rw [compareNumbers_neg three]
  constructor
  · rintro below ⟨older, newer, isOlder, isNewer, forward⟩
    rw [isOlder.unique isCurrent, isNewer.unique isCandidate] at forward
    exact forward below
  · intro stays
    by_contra forward
    exact stays ⟨current, candidate, isCurrent, isCandidate, forward⟩

/-- What is checked of an update beyond its firmware is that its version does not go back. -/
theorem verifyFirmwareUpdate_checked {verifier : FirmwareVerifier} {currentVersion : Bytes}
    {result : VerificationResult}
    (returned : verifier.verifyFirmwareUpdate secp image vendor currentVersion = .ok result) :
    ∃ checked, verifier.verifyFirmware secp image vendor = .ok checked ∧
      result.firmwareInfo = checked.firmwareInfo ∧ (result.status = .valid ↔
        checked.status = .valid ∧ Advances currentVersion checked.firmwareInfo.version) := by
  rw [verifyFirmwareUpdate] at returned
  cases isChecked : verifier.verifyFirmware secp image vendor with
  | error thrown =>
      rw [isChecked] at returned
      cases returned
  | ok checked =>
      rw [isChecked] at returned
      refine ⟨checked, rfl, ?_⟩
      change (if checked.status ≠ .valid then _ else _) = _ at returned
      split at returned
      · rename_i invalid
        cases returned
        exact ⟨rfl, iff_of_false invalid fun both => invalid both.1⟩
      · rename_i valid
        split at returned
        · rename_i missing
          cases returned
          refine ⟨rfl, iff_of_false nofun fun both => ?_⟩
          obtain ⟨_, _, _, isCandidate, _⟩ := both.2
          exact isCandidate.nonempty (List.isEmpty_iff.mp missing)
        · cases isRead : bothRead currentVersion checked.firmwareInfo.version with
          | error thrown =>
              rw [isRead] at returned
              cases returned
          | ok read =>
              rw [isRead] at returned
              change (if !read then _ else _) = _ at returned
              cases read with
              | false =>
                  cases returned
                  exact ⟨rfl, iff_of_false nofun fun both => not_advances_of_unread isRead both.2⟩
              | true =>
                  obtain ⟨order, compared, back⟩ := compareSemVer_of_read isRead
                  rw [if_neg (by decide), compared] at returned
                  change (if order < 0 then _ else _) = _ at returned
                  split at returned
                  · rename_i goesBack
                    cases returned
                    exact ⟨rfl, iff_of_false nofun fun both => back.mp goesBack both.2⟩
                  · rename_i goesOn
                    cases returned
                    exact ⟨rfl, iff_of_true (not_not.mp valid)
                      ⟨not_not.mp valid, not_not.mp (mt back.mpr goesOn)⟩⟩

theorem verifyFirmwareUpdate_returns {currentVersion : Bytes} (readable : ReadsAll calls)
    (readableCurrent : Readable currentVersion) :
    ∃ result, (after calls).verifyFirmwareUpdate secp image vendor currentVersion = .ok result := by
  obtain ⟨checked, isChecked⟩ := @verifyFirmware_returns secp calls image vendor readable
  rw [verifyFirmwareUpdate, isChecked]
  change ∃ result, (if checked.status ≠ .valid then _ else _) = _
  split
  · exact ⟨checked, rfl⟩
  · rename_i valid
    split
    · exact ⟨_, rfl⟩
    · have judges := verifyFirmware_judges isChecked
      obtain ⟨info, official⟩ := judges.valid_iff.mp (not_not.mp valid)
      have readableCandidate : Readable checked.firmwareInfo.version := by
        rw [judges.names info official]
        exact readable _ (FirmwareCall.mem_of_firmwareOf official.recorded)
      obtain ⟨read, isRead⟩ := bothRead_returns readableCurrent readableCandidate
      obtain ⟨order, compared⟩ := compareSemVer_returns readableCandidate readableCurrent
      rw [isRead, compared]
      change ∃ result, (if !read then _ else (if order < 0 then _ else _)) = _
      split
      · exact ⟨_, rfl⟩
      · split <;> exact ⟨_, rfl⟩

/-- After any calls an update is accepted exactly when its image is official and its version
does not go back, and then the report names what was recorded.  Only a version with a number
too large for an `int` stops the check. -/
theorem verifyFirmwareUpdate_valid_iff (secp : Secp256k1) (calls : List FirmwareCall)
    (image vendor currentVersion : Bytes) :
    (∀ result, (after calls).verifyFirmwareUpdate secp image vendor currentVersion = .ok result →
      (result.status = .valid ↔ ∃ info, Official secp calls image vendor info ∧
        Advances currentVersion info.version) ∧
      ∀ info, Official secp calls image vendor info → result.firmwareInfo = info) ∧
    (ReadsAll calls → Readable currentVersion →
      ∃ result, (after calls).verifyFirmwareUpdate secp image vendor currentVersion = .ok result) := by
  refine ⟨fun result returned => ?_, verifyFirmwareUpdate_returns⟩
  obtain ⟨checked, isChecked, same, valid_iff⟩ := verifyFirmwareUpdate_checked returned
  have judges := verifyFirmware_judges isChecked
  rw [same]
  refine ⟨?_, judges.names⟩
  rw [valid_iff, judges.valid_iff]
  constructor
  · rintro ⟨⟨info, official⟩, advances⟩
    rw [judges.names info official] at advances
    exact ⟨info, official, advances⟩
  · rintro ⟨info, official, advances⟩
    refine ⟨⟨info, official⟩, ?_⟩
    rw [judges.names info official]
    exact advances

/-- An installation asks for official firmware of the vendor it is recorded for, and for no
version: it may go back. -/
theorem installUpdate_iff {deviceId : Bytes} {installed : Bool}
    (returned : (after calls).installUpdate secp deviceId image = .ok installed) :
    installed = true ↔ deviceId ≠ [] ∧ image ≠ [] ∧
      ∃ info, Official secp calls image info.vendor info := by
  rw [installUpdate, getFirmwareInfo_after] at returned
  split at returned
  · rename_i missing
    cases returned
    refine iff_of_false nofun fun given => ?_
    simp [given.1, given.2.1] at missing
  · rename_i given
    simp only [Bool.or_eq_true, List.isEmpty_iff, not_or] at given
    cases isInfo : FirmwareCall.firmwareOf calls (computeHash image) with
    | none =>
        rw [isInfo] at returned
        cases returned
        refine iff_of_false nofun fun ⟨_, _, info, official⟩ => ?_
        have recorded := official.recorded
        rw [isInfo] at recorded
        cases recorded
    | some info =>
        rw [isInfo] at returned
        cases isChecked : (after calls).verifyFirmware secp image info.vendor with
        | error thrown =>
            dsimp only at returned
            rw [isChecked] at returned
            cases returned
        | ok checked =>
            dsimp only at returned
            rw [isChecked] at returned
            cases returned
            have valid_iff := (verifyFirmware_judges isChecked).valid_iff
            rw [decide_eq_true_iff, valid_iff]
            constructor
            · rintro ⟨other, official⟩
              obtain rfl := official.eq_of_recorded isInfo
              exact ⟨given.1, given.2, other, official⟩
            · rintro ⟨_, _, other, official⟩
              obtain rfl := official.eq_of_recorded isInfo
              exact ⟨other, official⟩

end Acceptance

end FirmwareVerifier

end Parthenon.Wallet.Hardware
