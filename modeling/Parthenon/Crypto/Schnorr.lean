import Parthenon.Crypto.Sha256

namespace Parthenon.Crypto

open Parthenon.Library

/-! # Schnorr signatures

The wrapper around the secp256k1 library.  The library itself is a parameter.
-/

abbrev PrivateKey := FixedBytes 32

abbrev PublicKey := FixedBytes 32

abbrev Signature := FixedBytes 64

/-- The functions of the secp256k1 library that the wrapper calls.  `none` is a
return value of zero. -/
structure Secp256k1 where
  Keypair : Type
  XonlyPubkey : Type
  ecSeckeyVerify : PrivateKey → Bool
  keypairCreate : PrivateKey → Option Keypair
  keypairXonlyPub : Keypair → Option XonlyPubkey
  xonlyPubkeySerialize : XonlyPubkey → Option PublicKey
  xonlyPubkeyParse : PublicKey → Option XonlyPubkey
  schnorrsigSign32 : Hash → Keypair → Option (FixedBytes 32) → Option Signature
  schnorrsigVerify : Signature → Hash → XonlyPubkey → Bool

namespace Secp256k1

/-- What the library documents about keys and signatures: a serialised key is
parsed back, a signature verifies under the key that made it, and it is a
signature of no other message. -/
structure Documented (secp : Secp256k1) : Prop where
  parse_serialize : ∀ pubkey bytes, secp.xonlyPubkeySerialize pubkey = some bytes →
    secp.xonlyPubkeyParse bytes = some pubkey
  verify_sign : ∀ keypair pubkey message auxRand signature,
    secp.keypairXonlyPub keypair = some pubkey →
    secp.schnorrsigSign32 message keypair auxRand = some signature →
    secp.schnorrsigVerify signature message pubkey = true
  message_unique : ∀ keypair pubkey message other auxRand signature,
    secp.keypairXonlyPub keypair = some pubkey →
    secp.schnorrsigSign32 message keypair auxRand = some signature →
    secp.schnorrsigVerify signature other pubkey = true → other = message

end Secp256k1

namespace Schnorr

variable (secp : Secp256k1)

def publicKeySize : Nat := 32

def signatureSize : Nat := 64

def validatePrivateKey (privkey : PrivateKey) : Bool := secp.ecSeckeyVerify privkey

def validatePublicKey (pubkey : PublicKey) : Bool := (secp.xonlyPubkeyParse pubkey).isSome

def getPublicKey (privkey : PrivateKey) : Option PublicKey :=
  if !validatePrivateKey secp privkey then none
  else do
    let keypair ← secp.keypairCreate privkey
    let xonlyPubkey ← secp.keypairXonlyPub keypair
    secp.xonlyPubkeySerialize xonlyPubkey

def sign (privkey : PrivateKey) (msgHash : Hash) (auxRand : Option (FixedBytes 32)) :
    Option Signature :=
  if !validatePrivateKey secp privkey then none
  else do
    let keypair ← secp.keypairCreate privkey
    secp.schnorrsigSign32 msgHash keypair auxRand

def verify (pubkey : PublicKey) (msgHash : Hash) (signature : Signature) : Bool :=
  if !validatePublicKey secp pubkey then false
  else
    match secp.xonlyPubkeyParse pubkey with
    | none => false
    | some xonlyPubkey => secp.schnorrsigVerify signature msgHash xonlyPubkey

variable {secp}

theorem getPublicKey_eq_some {privkey : PrivateKey} {pubkey : PublicKey} :
    getPublicKey secp privkey = some pubkey ↔ validatePrivateKey secp privkey = true ∧
      ∃ keypair xonlyPubkey, secp.keypairCreate privkey = some keypair ∧
        secp.keypairXonlyPub keypair = some xonlyPubkey ∧
        secp.xonlyPubkeySerialize xonlyPubkey = some pubkey := by
  unfold getPublicKey
  cases valid : validatePrivateKey secp privkey with
  | false => simp
  | true => simp [Option.bind_eq_some_iff]

theorem sign_eq_some {privkey : PrivateKey} {msgHash : Hash} {auxRand : Option (FixedBytes 32)}
    {signature : Signature} :
    sign secp privkey msgHash auxRand = some signature ↔ validatePrivateKey secp privkey = true ∧
      ∃ keypair, secp.keypairCreate privkey = some keypair ∧
        secp.schnorrsigSign32 msgHash keypair auxRand = some signature := by
  unfold sign
  cases valid : validatePrivateKey secp privkey with
  | false => simp
  | true => simp [Option.bind_eq_some_iff]

section Documented

variable (documented : secp.Documented) {privkey : PrivateKey} {pubkey : PublicKey} {msgHash : Hash}
  {auxRand : Option (FixedBytes 32)} {signature : Signature}

include documented

theorem validatePublicKey_of_getPublicKey (key : getPublicKey secp privkey = some pubkey) :
    validatePublicKey secp pubkey = true := by
  obtain ⟨_, _, xonlyPubkey, _, _, serialized⟩ := getPublicKey_eq_some.mp key
  rw [validatePublicKey, documented.parse_serialize _ _ serialized]
  rfl

/-- A signature verifies under the key of its signer for the signed message alone. -/
theorem verify_of_sign (key : getPublicKey secp privkey = some pubkey)
    (signed : sign secp privkey msgHash auxRand = some signature) (other : Hash) :
    verify secp pubkey other signature = true ↔ other = msgHash := by
  obtain ⟨_, keypair, xonlyPubkey, created, converted, serialized⟩ := getPublicKey_eq_some.mp key
  obtain ⟨_, signer, sameKey, produced⟩ := sign_eq_some.mp signed
  obtain rfl : keypair = signer := Option.some.inj (created.symm.trans sameKey)
  have parsed := documented.parse_serialize _ _ serialized
  simp only [verify, validatePublicKey, parsed, Option.isSome_some, Bool.not_true,
    Bool.false_eq_true, if_false]
  constructor
  · intro verified
    exact documented.message_unique _ _ _ _ _ _ converted produced verified
  · intro same
    rw [same]
    exact documented.verify_sign _ _ _ _ _ converted produced

end Documented

end Schnorr

end Parthenon.Crypto
