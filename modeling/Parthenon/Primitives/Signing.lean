import Parthenon.Primitives.WireLaws

namespace Parthenon.Primitives

open Parthenon.Library Parthenon.Crypto

/-! # The signed message

What `SerializeForSigning` writes for an input, in terms of the transaction
without any signature script: the script of that one input put back.
-/

def TxInput.withScript (script : ByteVector) (input : TxInput) : TxInput :=
  { input with signatureScript := script }

/-- A written input is recovered from any bytes it stands in front of. -/
theorem TxInput.serialize_append_inj {left right : TxInput} {leftRest rightRest : Bytes}
    (same : left.serialize ++ leftRest = right.serialize ++ rightRest) : left = right := by
  have readLeft := (TxInput.deserialize_parses _ left leftRest).mpr ⟨rfl, trivial⟩
  have readRight := (TxInput.deserialize_parses _ right rightRest).mpr ⟨rfl, trivial⟩
  rw [same, readRight] at readLeft
  cases readLeft
  rfl

namespace Transaction

/-- The transaction with every signature script cleared. -/
def unsigned (tx : Transaction) : Transaction :=
  { tx with inputs := tx.inputs.map (TxInput.withScript .empty) }

def scriptAt (tx : Transaction) (index : Nat) : Option ByteVector :=
  tx.inputs[index]?.map TxInput.signatureScript

def setScript (tx : Transaction) (index : Nat) (script : ByteVector) : Transaction :=
  { tx with inputs := tx.inputs.modify index (TxInput.withScript script) }

@[simp] theorem unsigned_unsigned (tx : Transaction) : tx.unsigned.unsigned = tx.unsigned := by
  simp only [unsigned, List.map_map]
  rfl

theorem unsigned_setScript (tx : Transaction) (index : Nat) (script : ByteVector) :
    (tx.setScript index script).unsigned = tx.unsigned := by
  have inputs : (tx.inputs.modify index (TxInput.withScript script)).map (TxInput.withScript .empty) =
      tx.inputs.map (TxInput.withScript .empty) := by
    apply List.ext_getElem?
    intro other
    rw [List.getElem?_map, List.getElem?_map, List.getElem?_modify]
    cases tx.inputs[other]? with
    | none => rfl
    | some input =>
        simp only [Option.map_eq_map, Option.map_some]
        split
        · rfl
        · rfl
  unfold unsigned setScript
  rw [inputs]

theorem scriptAt_setScript (tx : Transaction) (index other : Nat) (script : ByteVector) :
    (tx.setScript index script).scriptAt other =
      if index = other then (tx.scriptAt other).map fun _ => script else tx.scriptAt other := by
  unfold scriptAt setScript
  dsimp only
  rw [List.getElem?_modify]
  cases tx.inputs[other]? with
  | none =>
      split
      · rfl
      · rfl
  | some input =>
      simp only [Option.map_eq_map, Option.map_some]
      split
      · rfl
      · rfl

theorem scriptAt_unsigned (tx : Transaction) (index : Nat) :
    tx.unsigned.scriptAt index = (tx.scriptAt index).map fun _ => .empty := by
  unfold scriptAt unsigned
  rw [List.getElem?_map, Option.map_map, Option.map_map]
  rfl

/-- The message of an input is written from the unsigned transaction with the
script of that input put back. -/
theorem serializeForSigning_eq (tx : Transaction) (index : Nat) :
    tx.serializeForSigning index =
      match tx.scriptAt index with
      | some script => (tx.unsigned.setScript index script).serialize
      | none => tx.unsigned.serialize := by
  have inputs : tx.inputs.mapIdx (signingInput index) =
      match tx.scriptAt index with
      | some script => (tx.unsigned.setScript index script).inputs
      | none => tx.unsigned.inputs := by
    apply List.ext_getElem?
    intro other
    rw [List.getElem?_mapIdx]
    cases found : tx.inputs[index]? with
    | none =>
        rw [scriptAt, found, Option.map_none, unsigned, List.getElem?_map]
        cases here : tx.inputs[other]? with
        | none => rfl
        | some input =>
            have different : other ≠ index := by
              intro same
              rw [same, found] at here
              cases here
            rw [Option.map_some, Option.map_some, signingInput, if_pos different]
            rfl
    | some signing =>
        rw [scriptAt, found, Option.map_some]
        dsimp only
        rw [setScript, unsigned, List.getElem?_modify, List.getElem?_map]
        by_cases same : index = other
        · subst other
          simp only [found, Option.map_eq_map, Option.map_some, if_true, signingInput, ne_eq,
            not_true_eq_false, if_false]
          rfl
        · cases here : tx.inputs[other]? with
          | none => rfl
          | some input =>
              have different : other ≠ index := Ne.symm same
              simp only [Option.map_eq_map, Option.map_some, if_neg same, signingInput,
                if_pos different]
              rfl
  rw [serializeForSigning, inputs]
  cases scripted : tx.scriptAt index with
  | none => simp only [serialize, unsigned, List.length_map]
  | some script => simp only [serialize, unsigned, setScript, List.length_modify, List.length_map]

theorem serialize_setScript_inj {tx : Transaction} {index : Nat} {left right : ByteVector}
    (inside : index < tx.inputs.length)
    (same : (tx.setScript index left).serialize = (tx.setScript index right).serialize) :
    left = right := by
  simp only [serialize, setScript, List.length_modify] at same
  simp only [List.modify_eq_take_cons_drop inside, List.flatMap_append, List.flatMap_cons,
    List.append_assoc, List.append_cancel_left_eq] at same
  exact congrArg TxInput.signatureScript (TxInput.serialize_append_inj same)

/-- Two transactions that differ in their signature scripts alone have one
message for an input exactly when they agree on the script of that input. -/
theorem serializeForSigning_eq_iff {left right : Transaction} (same : left.unsigned = right.unsigned)
    (index : Nat) : left.serializeForSigning index = right.serializeForSigning index ↔
      left.scriptAt index = right.scriptAt index := by
  have sameLength : left.inputs.length = right.inputs.length := by
    have inputs := congrArg (·.inputs.length) same
    simpa only [unsigned, List.length_map] using inputs
  rw [serializeForSigning_eq, serializeForSigning_eq, same]
  by_cases inside : index < right.inputs.length
  · have insideLeft : index < left.inputs.length := sameLength ▸ inside
    rw [scriptAt, scriptAt, List.getElem?_eq_getElem insideLeft, List.getElem?_eq_getElem inside]
    simp only [Option.map_some, Option.some.injEq]
    constructor
    · intro message
      apply serialize_setScript_inj _ message
      simpa only [unsigned, List.length_map] using inside
    · intro script
      rw [script]
  · have outside := Nat.le_of_not_lt inside
    have outsideLeft : left.inputs.length ≤ index := sameLength ▸ outside
    rw [scriptAt, scriptAt, List.getElem?_eq_none outsideLeft, List.getElem?_eq_none outside]
    simp

end Transaction

end Parthenon.Primitives
