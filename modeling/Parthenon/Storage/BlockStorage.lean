import Parthenon.Primitives.Block
import Parthenon.Primitives.WireCanonical

namespace Parthenon.Storage

open Parthenon.Library Parthenon.Crypto Parthenon.Primitives

/-! # Block storage

Blocks by height in a database of the node, with the height of every block by its
hash and the chain tip beside them.
-/

/-- The database library on the database of one path. -/
structure LevelDB where
  Disk : Type
  openDB : Disk → Option Disk
  get : Disk → Bytes → Option Bytes
  /-- Whether a batch was written, and what is on the disk after. -/
  write : Disk → List (Bytes × Bytes) → Bool × Disk

/-- A batch is written as a whole, and a key reads as the last value put there. -/
structure LevelDB.Documented (db : LevelDB) : Prop where
  get_write : ∀ disk batch after, db.write disk batch = (true, after) →
    ∀ key, db.get after key = (batch.reverse.lookup key).or (db.get disk key)

/-- A database that keeps every write, the newest first. -/
def LevelDB.memory : LevelDB where
  Disk := List (Bytes × Bytes)
  openDB disk := some disk
  get disk key := disk.lookup key
  write disk batch := (true, batch.reverse ++ disk)

theorem LevelDB.memory_documented : LevelDB.memory.Documented where
  get_write := by
    intro disk batch after written key
    cases written
    exact List.lookup_append

/-- The bytes of a string of ASCII characters. -/
def text (characters : List Char) : Bytes := characters.map fun character => UInt8.ofNat character.toNat

/-- `std::to_string`. -/
def decimal (value : Nat) : Bytes := text (Nat.toDigits 10 value)

def isDigit (byte : UInt8) : Bool := 48 ≤ byte && byte ≤ 57

def parseDigits (digits : Bytes) : Nat :=
  digits.foldl (fun parsed digit => 10 * parsed + (digit.toNat - 48)) 0

def tryParseUint32 (value : Bytes) : Option UInt32 :=
  if value.isEmpty then none
  else if !value.all isDigit then none
  else if parseDigits value < 2 ^ 32 then some (UInt32.ofNat (parseDigits value))
  else none

theorem digit_range {character : Char} (digit : character.isDigit = true) :
    48 ≤ character.toNat ∧ character.toNat ≤ 57 := Char.isDigit_iff_toNat.mp digit

theorem digit_byte {character : Char} (digit : character.isDigit = true) :
    (UInt8.ofNat character.toNat).toNat = character.toNat := by
  have range := digit_range digit
  rw [UInt8.toNat_ofNat']
  omega

theorem text_all_isDigit {characters : List Char} (digits : ∀ c ∈ characters, c.isDigit = true) :
    (text characters).all isDigit = true := by
  rw [text, List.all_map, List.all_eq_true]
  intro character member
  obtain ⟨least, most⟩ := digit_range (digits character member)
  simp only [isDigit, Function.comp_apply, Bool.and_eq_true, decide_eq_true_eq,
    UInt8.le_iff_toNat_le, digit_byte (digits character member)]
  exact ⟨least, most⟩

theorem parseDigits_text {characters : List Char} (digits : ∀ c ∈ characters, c.isDigit = true) :
    parseDigits (text characters) = Nat.ofDigitChars 10 characters 0 := by
  rw [parseDigits, text, List.foldl_map, Nat.ofDigitChars_eq_foldl]
  apply List.foldl_ext
  intro parsed character member
  rw [digit_byte (digits character member)]
  rfl

theorem toDigits_isDigit (value : Nat) : ∀ c ∈ Nat.toDigits 10 value, c.isDigit = true :=
  fun _ member => Nat.isDigit_of_mem_toDigits (by decide) (by decide) member

theorem decimal_isDigit (value : Nat) : (decimal value).all isDigit = true :=
  text_all_isDigit (toDigits_isDigit value)

theorem decimal_ne_nil (value : Nat) : decimal value ≠ [] := by
  rw [decimal, text, ne_eq, List.map_eq_nil_iff]
  exact Nat.toDigits_ne_nil

theorem parseDigits_decimal (value : Nat) : parseDigits (decimal value) = value := by
  rw [decimal, parseDigits_text (toDigits_isDigit value),
    Nat.ofDigitChars_toDigits (by decide) (by decide)]

theorem decimal_inj {left right : Nat} (same : decimal left = decimal right) : left = right := by
  rw [← parseDigits_decimal left, same, parseDigits_decimal]

theorem not_mem_decimal {byte : UInt8} (other : isDigit byte = false) (value : Nat) :
    byte ∉ decimal value := by
  intro member
  have digit := List.all_eq_true.mp (decimal_isDigit value) byte member
  rw [other] at digit
  cases digit

/-- A number reads back from its digits. -/
theorem tryParseUint32_decimal (value : UInt32) : tryParseUint32 (decimal value.toNat) = some value := by
  have nonempty : (decimal value.toNat).isEmpty = false :=
    List.isEmpty_eq_false_iff.mpr (decimal_ne_nil value.toNat)
  have small := value.toNat_lt
  rw [tryParseUint32, nonempty, parseDigits_decimal, decimal_isDigit, if_pos small]
  simp

structure BlockStorage (db : LevelDB) where
  disk : db.Disk
  isOpen : Bool

namespace BlockStorage

variable {db : LevelDB}

/-- The library refuses to open a database that is open already. -/
def openPath (storage : BlockStorage db) : Bool × BlockStorage db :=
  if storage.isOpen then (false, storage)
  else
    match db.openDB storage.disk with
    | none => (false, storage)
    | some disk => (true, { disk, isOpen := true })

def close (storage : BlockStorage db) : BlockStorage db := { storage with isOpen := false }

def heightKey (height : UInt32) : Bytes :=
  let digits := Nat.toDigits 10 height.toNat
  text ('b' :: (List.replicate (10 - digits.length) '0' ++ digits))

/-- `%02x` of every byte. -/
def hexText (hash : Hash) : List Char :=
  hash.bytes.flatMap fun byte =>
    [Nat.digitChar (byte.toNat / 16), Nat.digitChar (byte.toNat % 16)]

def hashKey (hash : Hash) : Bytes := text ('h' :: hexText hash)

def metaHeight : Bytes := text "meta:height".toList

def metaBestHash : Bytes := text "meta:best_hash".toList

def write (storage : BlockStorage db) (batch : List (Bytes × Bytes)) : Bool × BlockStorage db :=
  if !storage.isOpen then (false, storage)
  else
    let (written, disk) := db.write storage.disk batch
    (written, { storage with disk })

def storeBlock (storage : BlockStorage db) (block : Block) (height : UInt32) :
    Bool × BlockStorage db :=
  storage.write
    [(heightKey height, block.serialize), (hashKey block.getHash, decimal height.toNat)]

/-- A database that is closed has nothing. -/
def get (storage : BlockStorage db) (key : Bytes) : Option Bytes :=
  if storage.isOpen then db.get storage.disk key else none

def getBlockByHeight (storage : BlockStorage db) (height : UInt32) : Except Fault CachedBlock :=
  match storage.get (heightKey height) with
  | none => .error .nullopt
  | some value => Block.deserialize value

def getBlockByHash (storage : BlockStorage db) (hash : Hash) : Except Fault CachedBlock :=
  match storage.get (hashKey hash) with
  | none => .error .nullopt
  | some value =>
      match tryParseUint32 value with
      | none => .error .nullopt
      | some height => storage.getBlockByHeight height

def getHeight (storage : BlockStorage db) : UInt32 :=
  match storage.get metaHeight with
  | none => 0
  | some value => (tryParseUint32 value).getD 0

def updateChainTip (storage : BlockStorage db) (height : UInt32) (bestHash : Hash) :
    Bool × BlockStorage db :=
  storage.write [(metaHeight, decimal height.toNat), (metaBestHash, text (hexText bestHash))]

/-! What was written is read back. -/

theorem write_ok {storage after : BlockStorage db} {batch : List (Bytes × Bytes)}
    (documented : db.Documented) (written : storage.write batch = (true, after)) :
    storage.isOpen = true ∧ after.isOpen = true ∧
      ∀ key, after.get key = (batch.reverse.lookup key).or (storage.get key) := by
  rw [write] at written
  cases isOpen : storage.isOpen with
  | false => simp [isOpen] at written
  | true =>
      simp only [isOpen, Bool.not_true, Bool.false_eq_true, if_false] at written
      obtain ⟨done, rfl⟩ := Prod.mk.inj written
      have reads := documented.get_write storage.disk batch _ (Prod.ext done rfl)
      refine ⟨rfl, rfl, ?_⟩
      intro key
      simp only [get, isOpen, if_true]
      exact reads key

/-- The keys of different kinds start with different letters. -/
theorem heightKey_head (height : UInt32) : (heightKey height).head? = some 98 := rfl

theorem hashKey_head (hash : Hash) : (hashKey hash).head? = some 104 := rfl

theorem getHeight_updateChainTip {storage after : BlockStorage db} (documented : db.Documented)
    {height : UInt32} {bestHash : Hash}
    (updated : storage.updateChainTip height bestHash = (true, after)) : after.getHeight = height := by
  obtain ⟨_, _, reads⟩ := write_ok documented updated
  have different : (metaHeight == metaBestHash) = false := by decide
  have found : after.get metaHeight = some (decimal height.toNat) := by
    rw [reads]
    simp [List.lookup_cons, different]
  rw [getHeight, found]
  simp only [tryParseUint32_decimal, Option.getD_some]

theorem getBlockByHeight_storeBlock {storage after : BlockStorage db} (documented : db.Documented)
    {block : Block} (limits : block.WithinLimits) {height : UInt32}
    (stored : storage.storeBlock block height = (true, after)) :
    after.getBlockByHeight height = .ok block.parsedObject := by
  obtain ⟨_, _, reads⟩ := write_ok documented stored
  have different : (heightKey height == hashKey block.getHash) = false := by
    apply beq_eq_false_iff_ne.mpr
    intro same
    have heads := congrArg List.head? same
    rw [heightKey_head, hashKey_head] at heads
    cases heads
  have found : after.get (heightKey height) = some block.serialize := by
    rw [reads]
    simp [List.lookup_cons, different]
  rw [getBlockByHeight, found]
  exact Block.deserialize_serialize limits

/-- The chain tip is no block. -/
theorem getBlockByHeight_updateChainTip {storage after : BlockStorage db}
    (documented : db.Documented) {tip : UInt32} {bestHash : Hash}
    (updated : storage.updateChainTip tip bestHash = (true, after)) (height : UInt32) :
    after.getBlockByHeight height = storage.getBlockByHeight height := by
  obtain ⟨_, _, reads⟩ := write_ok documented updated
  have differs (key : Bytes) (head : key.head? = some 109) : (heightKey height == key) = false := by
    apply beq_eq_false_iff_ne.mpr
    intro same
    rw [← same, heightKey_head] at head
    cases head
  have same : after.get (heightKey height) = storage.get (heightKey height) := by
    rw [reads]
    simp [List.lookup_cons, differs metaHeight (by decide), differs metaBestHash (by decide)]
  rw [getBlockByHeight, getBlockByHeight, same]

end BlockStorage

end Parthenon.Storage
