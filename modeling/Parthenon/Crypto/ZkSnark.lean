import Parthenon.Crypto.Sha256

namespace Parthenon.Crypto

open Library

/-! # Proofs of the privacy layer

A proof is the hash of the public inputs with the verification key, which
everyone has.
-/

structure ProofParameters where
  provingKey : Bytes
  verificationKey : Bytes
  circuitSize : UInt32
deriving DecidableEq, Repr

structure ZKProof where
  proofData : Bytes
  publicInputs : Bytes
  proofType : UInt32
deriving DecidableEq, Repr

def ZKProof.isValid (proof : ZKProof) : Bool := !proof.proofData.isEmpty

namespace ProofParameters

/-- The keys do not depend on the circuit. -/
def setup (circuitSize : Nat) : ProofParameters where
  provingKey := (List.range 64).map fun i => UInt8.ofNat i
  verificationKey := (List.range 64).map fun i => UInt8.ofNat (64 - i)
  circuitSize := UInt32.ofNat circuitSize

variable (params : ProofParameters)

def verificationMaterial (inputs : Bytes) : Bytes :=
  littleEndian 4 params.circuitSize.toNat ++ inputs ++ params.verificationKey

def proofOf (witness : Bytes) : ZKProof where
  proofData := (SHA256.hash256 (params.verificationMaterial witness)).bytes ++
    (SHA256.hash256 (params.verificationMaterial witness ++ params.provingKey)).bytes
  publicInputs := []
  proofType := 1

/-- The result of the circuit's `Synthesize` is an input. -/
def generateProof (synthesized : Bool) (witness : Bytes) : Option ZKProof :=
  if !synthesized then none else some (params.proofOf witness)

def verifyProof (proof : ZKProof) (publicInputs : Bytes) : Bool :=
  if !proof.isValid then false
  else if proof.proofData.length < 32 then false
  else if publicInputs.isEmpty then false
  else if !proof.publicInputs.isEmpty ∧ proof.publicInputs ≠ publicInputs then false
  else proof.proofData.take 32 = (SHA256.hash256 (params.verificationMaterial publicInputs)).bytes

/-- What the prover generates, the verifier accepts. -/
theorem verifyProof_proofOf {witness : Bytes} (some_ : witness ≠ []) :
    params.verifyProof (params.proofOf witness) witness = true := by
  have inputs : witness.isEmpty = false := by simpa using some_
  have width := (SHA256.hash256 (params.verificationMaterial witness)).length_eq
  have front : (params.proofOf witness).proofData.take 32 =
      (SHA256.hash256 (params.verificationMaterial witness)).bytes := List.take_left' width
  have long : ¬ (params.proofOf witness).proofData.length < 32 := by
    rw [proofOf, List.length_append, width]
    omega
  have valid : (params.proofOf witness).isValid = true := by
    cases data : (params.proofOf witness).proofData with
    | nil => simp [data] at long
    | cons => simp [ZKProof.isValid, data]
  simp only [verifyProof, valid, if_neg long, inputs, front]
  simp [proofOf]

theorem generateProof_verifies {witness : Bytes} {proof : ZKProof} (some_ : witness ≠ [])
    {synthesized : Bool} (generated : params.generateProof synthesized witness = some proof) :
    params.verifyProof proof witness = true := by
  cases synthesized with
  | false => cases generated
  | true =>
      cases generated
      exact params.verifyProof_proofOf some_

end ProofParameters

end Parthenon.Crypto
