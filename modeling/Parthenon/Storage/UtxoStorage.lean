import Parthenon.Chainstate.Utxo
import Parthenon.Storage.BlockStorage

namespace Parthenon.Storage

open Parthenon.Library Parthenon.Primitives Parthenon.Chainstate

/-! # UTXO storage

The UTXO set under textual keys in a database of its own.  Here the database is
an ordered map from byte strings, a batch a list of writes to it, and no call of
the library fails.
-/

abbrev Database := Std.ExtTreeMap Bytes Bytes compare

/-- No database while it is closed. -/
structure UTXOStorage where
  db : Option Database

namespace UTXOStorage

def tryParseNibble (character : UInt8) : Option Nat :=
  if isDigit character then some (character.toNat - 48)
  else if 97 ≤ character ∧ character ≤ 102 then some (10 + (character.toNat - 97))
  else if 65 ≤ character ∧ character ≤ 70 then some (10 + (character.toNat - 65))
  else none

def tryParseHexByte (high low : UInt8) : Option UInt8 := do
  let high ← tryParseNibble high
  let low ← tryParseNibble low
  some (UInt8.ofNat (16 * high + low))

/-- The first `count` bytes of a hexadecimal text. -/
def tryParseHex : Nat → Bytes → Option Bytes
  | 0, _ => some []
  | count + 1, high :: low :: rest => do
      let byte ← tryParseHexByte high low
      let bytes ← tryParseHex count rest
      some (byte :: bytes)
  | _, _ => none

def utxoKey (outpoint : OutPoint) : Bytes :=
  text ('u' :: BlockStorage.hexText outpoint.txid) ++ text ['_'] ++ decimal outpoint.vout.toNat

def metaUtxoCount : Bytes := text "meta:utxo_count".toList

/-- The size of the script is cast to 32 bits, and as many bytes are written. -/
def serializeOutput (output : TxOutput) : Bytes :=
  let scriptSize := UInt32.ofNat output.pubkeyScript.size
  output.value.serialize ++ littleEndian 4 scriptSize.toNat ++
    output.pubkeyScript.bytes.take scriptSize.toNat

/-- A script of the given size, zero where the data ends early. -/
def readScript (scriptSize : UInt32) (data : Bytes) : ByteVector where
  bytes := (data ++ List.replicate scriptSize.toNat 0).take scriptSize.toNat
  fits := by
    have small := scriptSize.toNat_lt
    rw [List.length_take, List.length_append, List.length_replicate]
    omega

def deserializeOutput (data : Bytes) : Option TxOutput :=
  if data.length < 1 + 8 + 4 then none
  else
    some {
      value := {
        asset := ⟨data.headD 0⟩
        amount := UInt64.ofNat (ofLittleEndian ((data.drop 1).take 8)) }
      pubkeyScript :=
        readScript (UInt32.ofNat (ofLittleEndian ((data.drop 9).take 4))) (data.drop 13) }

/-- The outpoint of a key, if it is the key of a UTXO. -/
def parseKey (key : Bytes) : Option OutPoint :=
  if key.head? ≠ some 117 then none
  else if key.length < 66 then none
  else
    match (key.drop 65).findIdx? (· == 95) with
    | none => none
    | some underscore => do
        let txid ← tryParseHex 32 (key.drop 1)
        let txid ← FixedBytes.ofBytes? 32 txid
        let vout ← tryParseUint32 (key.drop (65 + underscore + 1))
        some ⟨txid, vout⟩

/-- The coin of an entry.  The height and the coinbase flag are not stored. -/
def parseEntry (entry : Bytes × Bytes) : Option (OutPoint × Coin) := do
  let outpoint ← parseKey entry.1
  let output ← deserializeOutput entry.2
  some (outpoint, { output, height := 0, isCoinbase := false })

/-- Whether the set was loaded, and the set the call leaves. -/
def loadUTXOSet (storage : UTXOStorage) (utxoSet : UTXOSet) : Bool × UTXOSet :=
  match storage.db with
  | none => (false, utxoSet)
  | some db =>
      (true, (db.toList.filterMap parseEntry).foldl
        (fun set loaded => set.addCoin loaded.1 loaded.2) utxoSet)

/-- The deletions of `SaveUTXOSet`. -/
def clearBatch (db : Database) : List (Update Bytes Bytes) :=
  (db.toList.filter fun entry => entry.1.head? == some 117).map fun entry => (entry.1, none)

def coinBatch (utxoSet : UTXOSet) : List (Update Bytes Bytes) :=
  utxoSet.toList.map fun entry => (utxoKey entry.1, some (serializeOutput entry.2.output))

def saveUTXOSet (storage : UTXOStorage) (utxoSet : UTXOSet) : Bool × UTXOStorage :=
  match storage.db with
  | none => (false, storage)
  | some db =>
      let count := utxoSet.toList.length % 2 ^ 64
      let batch := clearBatch db ++ coinBatch utxoSet ++ [(metaUtxoCount, some (decimal count))]
      (true, { storage with db := some (applyUpdates db batch) })

/-! ## Keys -/

theorem tryParseNibble_digitChar :
    ∀ nibble : Fin 16, tryParseNibble (UInt8.ofNat (Nat.digitChar nibble.val).toNat) =
      some nibble.val := by
  decide

theorem tryParseHexByte_hex (byte : UInt8) :
    tryParseHexByte (UInt8.ofNat (Nat.digitChar (byte.toNat / 16)).toNat)
      (UInt8.ofNat (Nat.digitChar (byte.toNat % 16)).toNat) = some byte := by
  have small := byte.toNat_lt
  have high := tryParseNibble_digitChar ⟨byte.toNat / 16, by omega⟩
  have low := tryParseNibble_digitChar ⟨byte.toNat % 16, by omega⟩
  simp only at high low
  rw [tryParseHexByte, high, low]
  simp only [Option.bind_eq_bind, Option.bind_some, Nat.div_add_mod, UInt8.ofNat_toNat]

theorem tryParseHex_hexText (bytes rest : Bytes) :
    tryParseHex bytes.length (text (bytes.flatMap fun byte =>
      [Nat.digitChar (byte.toNat / 16), Nat.digitChar (byte.toNat % 16)]) ++ rest) = some bytes := by
  induction bytes with
  | nil => rfl
  | cons byte bytes ih =>
      have here := tryParseHexByte_hex byte
      simp only [text, List.flatMap_cons, List.map_cons, List.cons_append, List.nil_append,
        List.length_cons] at ih ⊢
      rw [tryParseHex, here]
      simp only [Option.bind_eq_bind, Option.bind_some]
      rw [ih]
      rfl

theorem hexText_length (hash : Crypto.Hash) : (BlockStorage.hexText hash).length = 64 := by
  rw [BlockStorage.hexText, List.length_flatMap]
  simp [hash.length_eq]

theorem utxoKey_eq (outpoint : OutPoint) : utxoKey outpoint =
    117 :: (text (BlockStorage.hexText outpoint.txid) ++ 95 :: decimal outpoint.vout.toNat) := by
  rw [utxoKey, List.append_assoc]
  rfl

theorem parseKey_utxoKey (outpoint : OutPoint) : parseKey (utxoKey outpoint) = some outpoint := by
  have hexLength : (text (BlockStorage.hexText outpoint.txid)).length = 64 := by
    rw [text, List.length_map, hexText_length]
  have afterHex : (utxoKey outpoint).drop 65 = 95 :: decimal outpoint.vout.toNat := by
    rw [utxoKey_eq, List.drop_succ_cons, ← hexLength, List.drop_left]
  have longEnough : ¬ (utxoKey outpoint).length < 66 := by
    rw [utxoKey_eq, List.length_cons, List.length_append, hexLength, List.length_cons]
    omega
  have hex : tryParseHex 32 ((utxoKey outpoint).drop 1) = some outpoint.txid.bytes := by
    have parsed := tryParseHex_hexText outpoint.txid.bytes (95 :: decimal outpoint.vout.toNat)
    rw [outpoint.txid.length_eq] at parsed
    rw [utxoKey_eq]
    exact parsed
  have digits : (utxoKey outpoint).drop (65 + 0 + 1) = decimal outpoint.vout.toNat := by
    rw [← List.drop_drop, afterHex]
    rfl
  rw [parseKey, if_neg (by rw [utxoKey_eq]; simp), if_neg longEnough, afterHex,
    List.findIdx?_cons, if_pos (by decide)]
  simp only [digits, hex, FixedBytes.ofBytes?_bytes, tryParseUint32_decimal, Option.bind_eq_bind,
    Option.bind_some]

theorem utxoKey_injective {left right : OutPoint} (same : utxoKey left = utxoKey right) :
    left = right := by
  have parsed := congrArg parseKey same
  rw [parseKey_utxoKey, parseKey_utxoKey] at parsed
  exact Option.some.inj parsed

/-! ## Outputs -/

/-- The coin as it comes back. -/
def reloaded (coin : Coin) : Coin where
  output := {
    value := coin.output.value
    pubkeyScript := readScript (UInt32.ofNat coin.output.pubkeyScript.size)
      (coin.output.pubkeyScript.bytes.take (UInt32.ofNat coin.output.pubkeyScript.size).toNat) }
  height := 0
  isCoinbase := false

theorem deserializeOutput_serializeOutput (coin : Coin) :
    deserializeOutput (serializeOutput coin.output) = some (reloaded coin).output := by
  let amount := littleEndian 8 coin.output.value.amount.toNat
  let scriptSize := UInt32.ofNat coin.output.pubkeyScript.size
  let sizeBytes := littleEndian 4 scriptSize.toNat
  let script := coin.output.pubkeyScript.bytes.take scriptSize.toNat
  have amountLength : amount.length = 8 := littleEndian_length 8 _
  have sizeLength : sizeBytes.length = 4 := littleEndian_length 4 _
  have whole : serializeOutput coin.output =
      coin.output.value.asset.value :: (amount ++ (sizeBytes ++ script)) := by
    rw [← List.append_assoc]
    rfl
  have longEnough : ¬ (serializeOutput coin.output).length < 1 + 8 + 4 := by
    rw [whole, List.length_cons, List.length_append, List.length_append, amountLength, sizeLength]
    omega
  have afterAmount : (serializeOutput coin.output).drop 9 = sizeBytes ++ script := by
    rw [whole, List.drop_succ_cons, ← amountLength, List.drop_left]
  have afterSize : (serializeOutput coin.output).drop 13 = script := by
    rw [show 13 = 9 + 4 from rfl, ← List.drop_drop, afterAmount, ← sizeLength, List.drop_left]
  have amountRead : ((serializeOutput coin.output).drop 1).take 8 = amount := by
    rw [whole, List.drop_succ_cons, List.drop_zero, ← amountLength, List.take_left]
  have sizeRead : ((serializeOutput coin.output).drop 9).take 4 = sizeBytes := by
    rw [afterAmount, ← sizeLength, List.take_left]
  have amountValue : UInt64.ofNat (ofLittleEndian amount) = coin.output.value.amount := by
    rw [ofLittleEndian_littleEndian, Nat.mod_eq_of_lt
      (show _ < 256 ^ 8 from coin.output.value.amount.toNat_lt), UInt64.ofNat_toNat]
  have sizeValue : UInt32.ofNat (ofLittleEndian sizeBytes) = scriptSize := by
    rw [ofLittleEndian_littleEndian, Nat.mod_eq_of_lt (show _ < 256 ^ 4 from scriptSize.toNat_lt),
      UInt32.ofNat_toNat]
  rw [deserializeOutput, if_neg longEnough, amountRead, sizeRead, afterSize, amountValue, sizeValue,
    whole]
  rfl

/-- A script comes back as it was when its size fits in 32 bits. -/
theorem readScript_eq_iff (script : ByteVector) :
    readScript (UInt32.ofNat script.size) (script.bytes.take (UInt32.ofNat script.size).toNat) =
      script ↔ script.size < 2 ^ 32 := by
  have sizeValue : (UInt32.ofNat script.size).toNat = script.size % 2 ^ 32 := UInt32.toNat_ofNat'
  refine ⟨fun same => ?_, fun small => ?_⟩
  · have lengths := congrArg ByteVector.size same
    rw [ByteVector.size, readScript, List.length_take, sizeValue] at lengths
    omega
  · apply ByteVector.ext
    have whole : (UInt32.ofNat script.size).toNat = script.bytes.length := by
      rw [sizeValue, Nat.mod_eq_of_lt small]
      rfl
    change (List.take _ script.bytes ++ List.replicate _ 0).take _ = script.bytes
    rw [whole, List.take_length, List.take_left]

theorem reloaded_eq_iff (coin : Coin) : reloaded coin = coin ↔
    coin.height = 0 ∧ coin.isCoinbase = false ∧ coin.output.pubkeyScript.size < 2 ^ 32 := by
  rw [← readScript_eq_iff, Coin.ext_iff, TxOutput.ext_iff]
  simp only [reloaded, true_and]
  refine ⟨fun ⟨script, height, isCoinbase⟩ => ⟨height.symm, isCoinbase.symm, script⟩,
    fun ⟨height, isCoinbase, script⟩ => ⟨script, height.symm, isCoinbase.symm⟩⟩

/-! ## Saving and loading -/

theorem mem_coinBatch {utxoSet : UTXOSet} {key : Bytes} {value : Option Bytes} :
    (key, value) ∈ coinBatch utxoSet ↔ ∃ outpoint coin, utxoSet.getCoin outpoint = some coin ∧
      key = utxoKey outpoint ∧ value = some (serializeOutput coin.output) := by
  rw [coinBatch, List.mem_map]
  refine ⟨fun ⟨entry, member, same⟩ => ?_, fun ⟨outpoint, coin, found, key, value⟩ => ?_⟩
  · obtain ⟨sameKey, sameValue⟩ := Prod.mk.inj same
    exact ⟨entry.1, entry.2, Std.ExtTreeMap.mem_toList_iff_getElem?_eq_some.mp member,
      sameKey.symm, sameValue.symm⟩
  · exact ⟨(outpoint, coin), Std.ExtTreeMap.mem_toList_iff_getElem?_eq_some.mpr found, by
      rw [key, value]⟩

/-- After a save the keys of UTXOs are the ones of the set, whatever was there. -/
theorem saved_utxo {prior : Database} {utxoSet : UTXOSet} {count : Bytes} {key value : Bytes}
    (isUtxo : key.head? = some 117) :
    (applyUpdates prior (clearBatch prior ++ coinBatch utxoSet ++ [(metaUtxoCount, some count)]))[key]?
        = some value ↔
      ∃ outpoint coin, utxoSet.getCoin outpoint = some coin ∧ key = utxoKey outpoint ∧
        value = serializeOutput coin.output := by
  have notMeta : metaUtxoCount ≠ key := by
    intro same
    rw [← same] at isUtxo
    cases isUtxo
  rw [getElem?_applyUpdates, lastWrite_append, lastWrite_append]
  simp only [lastWrite, notMeta, if_false, Option.none_or]
  cases wrote : lastWrite (coinBatch utxoSet) key with
  | some written =>
      obtain ⟨outpoint, coin, found, sameKey, rfl⟩ := mem_coinBatch.mp (mem_of_lastWrite wrote)
      simp only [Option.some_or, Option.getD_some, Option.some.injEq]
      refine ⟨fun same => ⟨outpoint, coin, found, sameKey, same.symm⟩, fun held => ?_⟩
      obtain ⟨other, otherCoin, otherFound, otherKey, rfl⟩ := held
      obtain rfl : outpoint = other := utxoKey_injective (sameKey.symm.trans otherKey)
      rw [found] at otherFound
      cases otherFound
      rfl
  | none =>
      have unwritten := lastWrite_eq_none.mp wrote
      have gone : (lastWrite (clearBatch prior) key).getD prior[key]? = none := by
        cases cleared : lastWrite (clearBatch prior) key with
        | some written =>
            obtain ⟨entry, -, same⟩ := List.mem_map.mp (mem_of_lastWrite cleared)
            rw [← (Prod.mk.inj same).2]
            rfl
        | none =>
            cases held : prior[key]? with
            | none => rfl
            | some old =>
                have member : (key, (none : Option Bytes)) ∈ clearBatch prior :=
                  List.mem_map.mpr ⟨(key, old), List.mem_filter.mpr
                    ⟨Std.ExtTreeMap.mem_toList_iff_getElem?_eq_some.mpr held, by simp [isUtxo]⟩, rfl⟩
                exact absurd rfl (lastWrite_eq_none.mp cleared _ member)
      rw [Option.none_or, gone]
      constructor
      · intro kept
        cases kept
      · rintro ⟨outpoint, coin, found, sameKey, -⟩
        exact absurd sameKey.symm
          (unwritten _ (mem_coinBatch.mpr ⟨outpoint, coin, found, rfl, rfl⟩))

theorem parseKey_head {key : Bytes} {outpoint : OutPoint} (parsed : parseKey key = some outpoint) :
    key.head? = some 117 := by
  by_contra other
  rw [parseKey, if_pos other] at parsed
  cases parsed

/-- What a saved database loads. -/
theorem mem_loaded {prior : Database} {utxoSet : UTXOSet} {count : Bytes} {outpoint : OutPoint}
    {coin : Coin} :
    (outpoint, coin) ∈ (applyUpdates prior
        (clearBatch prior ++ coinBatch utxoSet ++ [(metaUtxoCount, some count)])).toList.filterMap
          parseEntry ↔
      ∃ saved, utxoSet.getCoin outpoint = some saved ∧ coin = reloaded saved := by
  rw [List.mem_filterMap]
  refine ⟨fun ⟨entry, member, parsed⟩ => ?_, fun ⟨saved, found, same⟩ => ?_⟩
  · obtain ⟨key, value⟩ := entry
    obtain ⟨parsedOutpoint, keyParsed, parsed⟩ := Option.bind_eq_some_iff.mp parsed
    obtain ⟨output, outputParsed, done⟩ := Option.bind_eq_some_iff.mp parsed
    cases done
    obtain ⟨savedOutpoint, saved, found, rfl, rfl⟩ := (saved_utxo (parseKey_head keyParsed)).mp
      (Std.ExtTreeMap.mem_toList_iff_getElem?_eq_some.mp member)
    rw [parseKey_utxoKey] at keyParsed
    rw [deserializeOutput_serializeOutput] at outputParsed
    cases keyParsed
    cases outputParsed
    exact ⟨saved, found, rfl⟩
  · refine ⟨(utxoKey outpoint, serializeOutput saved.output),
      Std.ExtTreeMap.mem_toList_iff_getElem?_eq_some.mpr
        ((saved_utxo (parseKey_head (parseKey_utxoKey outpoint))).mpr
          ⟨outpoint, saved, found, rfl, rfl⟩), ?_⟩
    rw [parseEntry, parseKey_utxoKey, deserializeOutput_serializeOutput, same]
    rfl

/-- A set that is saved and loaded comes back with every coin reloaded. -/
theorem getCoin_load_save (prior : Database) (utxoSet : UTXOSet) (outpoint : OutPoint) :
    (((⟨some prior⟩ : UTXOStorage).saveUTXOSet utxoSet).2.loadUTXOSet ∅).2.getCoin outpoint =
      (utxoSet.getCoin outpoint).map reloaded := by
  let count := decimal (utxoSet.toList.length % 2 ^ 64)
  let loaded := (applyUpdates prior
    (clearBatch prior ++ coinBatch utxoSet ++ [(metaUtxoCount, some count)])).toList.filterMap
      parseEntry
  let writes : List CoinUpdate := loaded.map fun entry => (entry.1, some entry.2)
  have asWrites : (((⟨some prior⟩ : UTXOStorage).saveUTXOSet utxoSet).2.loadUTXOSet ∅).2 =
      applyUpdates ∅ writes := by
    rw [applyUpdates, List.foldl_map]
    rfl
  have mem_writes (coin : Option Coin) : (outpoint, coin) ∈ writes ↔
      ∃ saved, utxoSet.getCoin outpoint = some saved ∧ coin = some (reloaded saved) := by
    rw [List.mem_map]
    constructor
    · rintro ⟨entry, member, same⟩
      cases same
      obtain ⟨saved, found, same⟩ := mem_loaded.mp member
      exact ⟨saved, found, congrArg some same⟩
    · rintro ⟨saved, found, same⟩
      exact ⟨(outpoint, reloaded saved), mem_loaded.mpr ⟨saved, found, rfl⟩, by rw [same]⟩
  rw [asWrites, UTXOSet.getCoin, getElem?_applyUpdates]
  cases wrote : lastWrite writes outpoint with
  | some written =>
      obtain ⟨saved, found, rfl⟩ := (mem_writes written).mp (mem_of_lastWrite wrote)
      rw [found]
      rfl
  | none =>
      cases found : utxoSet.getCoin outpoint with
      | none => simp
      | some saved =>
          exact absurd rfl
            (lastWrite_eq_none.mp wrote _ ((mem_writes _).mpr ⟨saved, found, rfl⟩))

/-- Saving and loading gives back exactly the sets without heights and coinbase
flags whose scripts are shorter than `2 ^ 32` bytes, over every prior database. -/
theorem load_save_eq_iff (prior : Database) (utxoSet : UTXOSet) :
    ((⟨some prior⟩ : UTXOStorage).saveUTXOSet utxoSet).1 = true ∧
      (((⟨some prior⟩ : UTXOStorage).saveUTXOSet utxoSet).2.loadUTXOSet ∅ = (true, utxoSet) ↔
        ∀ outpoint coin, utxoSet.getCoin outpoint = some coin →
          coin.height = 0 ∧ coin.isCoinbase = false ∧
            coin.output.pubkeyScript.size < 2 ^ 32) := by
  refine ⟨rfl, fun same outpoint coin found => ?_, fun plain => ?_⟩
  · have reload := getCoin_load_save prior utxoSet outpoint
    rw [same, found] at reload
    exact (reloaded_eq_iff coin).mp (Option.some.inj reload).symm
  · refine Prod.ext rfl (Std.ExtTreeMap.ext_getElem? fun outpoint => ?_)
    have reload := getCoin_load_save prior utxoSet outpoint
    cases found : utxoSet.getCoin outpoint with
    | none =>
        rw [found] at reload
        exact reload.trans found.symm
    | some coin =>
        rw [found, Option.map_some, (reloaded_eq_iff coin).mpr (plain outpoint coin found)] at reload
        exact reload.trans found.symm

/-- The output of the first block's coinbase matures at height 101.  After a
restart it is spendable at once. -/
theorem load_save_forgets_coinbase :
    let outpoint : OutPoint := ⟨Crypto.zeroHash, 0⟩
    let coin : Coin := {
      output := { value := ⟨.talanton, 5000000000⟩, pubkeyScript := ⟨[1], ByteVector.one_fits⟩ }
      height := 1
      isCoinbase := true }
    let saved := (⟨some ∅⟩ : UTXOStorage).saveUTXOSet ((∅ : UTXOSet).addCoin outpoint coin)
    let loaded := saved.2.loadUTXOSet ∅
    saved.1 = true ∧ loaded.1 = true ∧ loaded.2.getCoin outpoint ≠ some coin ∧
      coin.isSpendable 2 = false ∧
      (loaded.2.getCoin outpoint).map (·.isSpendable 2) = some true := by
  intro outpoint coin saved loaded
  have found : ((∅ : UTXOSet).addCoin outpoint coin).getCoin outpoint = some coin := by
    simp [UTXOSet.getCoin, UTXOSet.addCoin]
  have reload : loaded.2.getCoin outpoint = some (reloaded coin) := by
    rw [getCoin_load_save, found]
    rfl
  rw [reload]
  refine ⟨rfl, rfl, fun same => ?_, by decide, rfl⟩
  have height := ((reloaded_eq_iff coin).mp (Option.some.inj same)).1
  exact absurd height (by decide)

end UTXOStorage

end Parthenon.Storage
