import Parthenon.P2p.PeerDatabase

namespace Parthenon.P2p

open Std Library Storage Common

/-! # Peer file

What the database reads back of the lines that it has written.
-/

/-! ## Tokens -/

def Visible (word : Bytes) : Prop := ∀ byte ∈ word, isSpace byte = false

instance (word : Bytes) : Decidable (Visible word) :=
  inferInstanceAs (Decidable (∀ byte ∈ word, isSpace byte = false))

/-- A score is printed as one token, which is read to its end as a score. -/
structure ScoreArith.Readable {Score : Type} (arith : ScoreArith Score) : Prop where
  visible : ∀ score, Visible (arith.print score)
  reads : ∀ score, ∃ read, Reads 32 arith.read (arith.print score) read

theorem decimal_visible (value : Nat) : Visible (decimal value) := by
  intro byte member
  exact isSpace_of_isDigit (List.all_eq_true.mp (decimal_isDigit value) byte member)

theorem signedDecimal_visible (value : Int) : Visible (signedDecimal value) := by
  rw [signedDecimal]
  split
  · exact List.forall_mem_cons.mpr ⟨by decide, decimal_visible _⟩
  · exact decimal_visible _

/-- The first character of a number is one of its digits. -/
theorem decimal_cons (value : Nat) :
    ∃ first rest, decimal value = first :: rest ∧ isDigit first = true := by
  obtain ⟨first, rest, isCons⟩ := List.exists_cons_of_ne_nil (decimal_ne_nil value)
  refine ⟨first, rest, isCons, ?_⟩
  apply List.all_eq_true.mp (decimal_isDigit value)
  rw [isCons]
  exact List.mem_cons_self

theorem readDigits_decimal (value : Nat) (tokens : List Bytes) :
    readDigits (decimal value ++ spaced 32 tokens) = some (value, spaced 32 tokens) := by
  have digits := List.all_eq_true.mp (decimal_isDigit value)
  have stops : isDigit 32 = false := by decide
  rw [readDigits, takeWhile_spaced digits stops, dropWhile_spaced digits stops,
    if_neg (by simpa using decimal_ne_nil value), parseDigits_decimal]

theorem readInteger_reads (value : Int) : Reads 32 readInteger (signedDecimal value) value := by
  intro tokens
  have blank : isSpace 32 = true := by decide
  have digits := readDigits_decimal value.natAbs tokens
  obtain ⟨first, rest, isCons, digit⟩ := decimal_cons value.natAbs
  rw [spaced_cons, readInteger, signedDecimal, List.dropWhile_cons_of_pos blank]
  split
  · rename_i negative
    have minus : ¬ isSpace 45 = true := by decide
    have isValue : -(value.natAbs : Int) = value := by omega
    simp only [List.cons_append, List.dropWhile_cons_of_neg minus, List.head?_cons,
      beq_self_eq_true, Bool.true_or, if_true, List.tail_cons, digits, Option.map_some, isValue]
  · rename_i nonnegative
    have visible : ¬ isSpace first = true := by simp [isSpace_of_isDigit digit]
    have noMinus : (some first == some (45 : UInt8)) = false := by
      rw [beq_eq_false_iff_ne]
      rintro ⟨⟩
      exact absurd digit (by decide)
    have noPlus : (some first == some (43 : UInt8)) = false := by
      rw [beq_eq_false_iff_ne]
      rintro ⟨⟩
      exact absurd digit (by decide)
    have isValue : (value.natAbs : Int) = value := by omega
    rw [isCons, List.cons_append] at digits
    simp only [isCons, List.cons_append, List.dropWhile_cons_of_neg visible, List.head?_cons,
      noMinus, noPlus, Bool.or_self, Bool.false_eq_true, if_false, digits, Option.map_some, isValue]

theorem decimal_eq_signed (value : Nat) : decimal value = signedDecimal value := by
  rw [signedDecimal, if_neg (by omega), Int.natAbs_natCast]

theorem readUnsigned_reads {width value : Nat} (fits : value < 2 ^ width) :
    Reads 32 (readUnsigned width) (decimal value) value := by
  intro tokens
  have natural : ((value : Int) % 2 ^ width).toNat = value := by
    rw [Int.emod_eq_of_lt (by omega) (by exact_mod_cast fits), Int.toNat_natCast]
  rw [readUnsigned, decimal_eq_signed, (readInteger_reads value).bind,
    if_pos (by rwa [Int.natAbs_natCast]), natural]
  rfl

theorem readTime_reads (value : Int64) : Reads 32 readTime (signedDecimal value.toInt) value := by
  intro tokens
  rw [readTime, (readInteger_reads _).bind, if_pos ⟨value.le_toInt, value.toInt_lt⟩,
    Int64.ofInt_toInt]
  rfl

theorem boolToken_eq_signed (value : Bool) : boolToken value = signedDecimal value.toInt := by
  cases value <;> decide

theorem readBool_reads (value : Bool) : Reads 32 readBool (boolToken value) value := by
  intro tokens
  rw [readBool, boolToken_eq_signed, (readInteger_reads _).bind]
  cases value <;> rfl

/-- A reader that only checks the number it has read stops where the number ends. -/
theorem checked_consumes {β : Type} {check : Int → TokenReader UInt8 β}
    (still : ∀ value text result, check value text = some result → result.2 = text) (value : Int) :
    Consumes 32 (readInteger >>= check) (signedDecimal value) := by
  intro tokens other rest read
  rw [(readInteger_reads value).bind] at read
  exact still _ _ _ read

theorem readUnsigned_consumes (width : Nat) (value : Int) :
    Consumes 32 (readUnsigned width) (signedDecimal value) := by
  apply checked_consumes
  intro value text result checked
  split at checked <;> cases checked
  rfl

theorem readTime_consumes (value : Int) : Consumes 32 readTime (signedDecimal value) := by
  apply checked_consumes
  intro value text result checked
  split at checked <;> cases checked
  rfl

theorem readBool_consumes (value : Int) : Consumes 32 readBool (signedDecimal value) := by
  apply checked_consumes
  intro value text result checked
  split at checked
  · cases checked
    rfl
  · split at checked <;> cases checked
    rfl

/-- Only the number one is read as true. -/
theorem eq_one_of_readBool {value : Int} {tokens : List Bytes} {rest : Bytes}
    (read : readBool (spaced 32 (signedDecimal value :: tokens)) = some (true, rest)) :
    value = 1 := by
  rw [readBool, (readInteger_reads value).bind] at read
  split at read
  · cases read
  · split at read
    · assumption
    · cases read

/-! ## Lines -/


section Lines

variable {Score : Type} {arith : ScoreArith Score} {key : Bytes} {info : PeerInfo Score}

/-- A peer with an address is read as it was, but perhaps for the score. -/
theorem readInfo_addressed (readable : arith.Readable) (addressed : info.address ≠ [])
    (visible : Visible info.address) :
    ∃ score, readInfo arith (spaced 32 (tokens arith info)) =
      some ({ info with score := score }, []) := by
  obtain ⟨score, scored⟩ := readable.reads info.score
  refine ⟨score, ?_⟩
  have address : Reads 32 (readWord isSpace) info.address info.address :=
    readWord_reads (by decide) addressed visible
  rw [readInfo, tokens, address.bind, (readUnsigned_reads info.port.toNat_lt).bind,
    (readUnsigned_reads info.services.toNat_lt).bind, (readTime_reads _).bind,
    (readTime_reads _).bind, (readUnsigned_reads info.connectionAttempts.toNat_lt).bind,
    (readUnsigned_reads info.successfulConnections.toNat_lt).bind,
    (readUnsigned_reads info.failedConnections.toNat_lt).bind, (readBool_reads _).bind,
    (readTime_reads _).bind, scored.bind,
    (readUnsigned_reads info.blocksReceived.toNat_lt).bind,
    (readUnsigned_reads info.txsReceived.toNat_lt).bind,
    (readUnsigned_reads info.invalidMessages.toNat_lt).bind,
    (readUnsigned_reads info.protocolViolations.toNat_lt).bind]
  simp only [UInt16.ofNat_toNat, UInt32.ofNat_toNat, UInt64.ofNat_toNat]
  rfl

/-- Without an address every field is read one too early, and the end of the ban as the ban. -/
theorem readInfo_unaddressed (unaddressed : info.address = []) {read : PeerInfo Score}
    {rest : Bytes} (isRead : readInfo arith (spaced 32 (tokens arith info)) = some (read, rest)) :
    read.address ≠ [] ∧ Visible read.address ∧
      (read.isBanned = true → info.banUntil.toInt = 1) := by
  have port : Reads 32 (readWord isSpace) (decimal info.port.toNat) (decimal info.port.toNat) :=
    readWord_reads (by decide) (decimal_ne_nil _) (decimal_visible _)
  rw [readInfo, tokens, unaddressed, readWord_bind_skip (by decide), port.bind] at isRead
  simp only [decimal_eq_signed, boolToken_eq_signed] at isRead
  obtain ⟨_, -, isRead⟩ := (readUnsigned_consumes _ _).bind isRead
  obtain ⟨_, -, isRead⟩ := (readUnsigned_consumes _ _).bind isRead
  obtain ⟨_, -, isRead⟩ := (readTime_consumes _).bind isRead
  obtain ⟨_, -, isRead⟩ := (readTime_consumes _).bind isRead
  obtain ⟨_, -, isRead⟩ := (readUnsigned_consumes _ _).bind isRead
  obtain ⟨_, -, isRead⟩ := (readUnsigned_consumes _ _).bind isRead
  obtain ⟨_, -, isRead⟩ := (readUnsigned_consumes _ _).bind isRead
  obtain ⟨isBanned, banRead, isRead⟩ := (readBool_consumes _).bind isRead
  obtain ⟨_, _, -, isRead⟩ := bind_read isRead
  obtain ⟨_, _, -, isRead⟩ := bind_read isRead
  obtain ⟨_, _, -, isRead⟩ := bind_read isRead
  obtain ⟨_, _, -, isRead⟩ := bind_read isRead
  obtain ⟨_, _, -, isRead⟩ := bind_read isRead
  obtain ⟨_, _, -, isRead⟩ := bind_read isRead
  cases isRead
  refine ⟨decimal_eq_signed _ ▸ decimal_ne_nil _, decimal_eq_signed _ ▸ decimal_visible _, ?_⟩
  rintro rfl
  exact eq_one_of_readBool banRead

theorem tokens_visible (readable : arith.Readable) (visible : Visible info.address) :
    ∀ token ∈ tokens arith info, Visible token := by
  intro token member
  simp only [tokens, boolToken_eq_signed, List.mem_cons, List.not_mem_nil, or_false] at member
  rcases member with rfl | rfl | rfl | rfl | rfl | rfl | rfl | rfl | rfl | rfl | rfl | rfl | rfl |
    rfl | rfl <;>
    first
    | exact visible
    | exact decimal_visible _
    | exact signedDecimal_visible _
    | exact readable.visible _

theorem newline_not_mem_peerLine (readable : arith.Readable) (visible : Visible key)
    (addressVisible : Visible info.address) : 10 ∉ peerLine arith key info := by
  have unseen : ∀ token : Bytes, Visible token → (10 : UInt8) ∉ token := by
    intro token all member
    exact absurd (all 10 member) (by decide)
  apply not_mem_intercalate _ (by decide)
  intro token member
  rcases List.mem_cons.mp member with rfl | later
  · exact unseen _ visible
  · exact unseen _ (tokens_visible readable addressVisible token later)

/-- What is read back of the line of a peer. -/
def reread (arith : ScoreArith Score) (key : Bytes) (info : PeerInfo Score) :
    Option (PeerInfo Score) :=
  if key.head? = some 35 then none
  else (readInfo arith (spaced 32 (tokens arith info))).map Prod.fst

theorem loadLine_peerLine (named : key ≠ []) (visible : Visible key)
    (peers : ExtTreeMap Bytes (PeerInfo Score) compare) :
    PeerDatabase.loadLine arith peers (peerLine arith key info) =
      insertKept (reread arith) peers (key, info) := by
  have isHead : (peerLine arith key info).head? = key.head? := by
    rw [peerLine, intercalate_cons, List.head?_append_of_ne_nil _ named]
  have some_ : (peerLine arith key info).isEmpty = false := by
    cases key with
    | nil => exact absurd rfl named
    | cons first rest => rw [peerLine, intercalate_cons]; rfl
  rw [PeerDatabase.loadLine, isHead, some_, Bool.false_or, insertKept, reread]
  by_cases comment : key.head? = some 35
  · simp [comment]
  · rw [if_neg (by simpa using comment), if_neg comment, readPeer, peerLine, intercalate_cons,
      readWord_bind (by decide) named visible]
    have whole : (readInfo arith >>= fun read => pure (key, read)) (spaced 32 (tokens arith info)) =
        (readInfo arith (spaced 32 (tokens arith info))).map fun read => ((key, read.1), read.2) := by
      change (readInfo arith (spaced 32 (tokens arith info)) >>= _) = _
      cases readInfo arith (spaced 32 (tokens arith info)) <;> rfl
    rw [whole]
    cases readInfo arith (spaced 32 (tokens arith info)) <;> rfl

theorem loadLine_comment {line : Bytes} (comment : line.head? = some 35)
    (peers : ExtTreeMap Bytes (PeerInfo Score) compare) :
    PeerDatabase.loadLine arith peers line = peers := by
  simp [PeerDatabase.loadLine, comment]

theorem fileHeader_comments :
    ∀ line ∈ fileHeader, line.head? = some 35 ∧ (10 : UInt8) ∉ line := by
  decide +kernel

theorem foldl_comments {comments : List Bytes} (all : ∀ line ∈ comments, line.head? = some 35)
    (peers : ExtTreeMap Bytes (PeerInfo Score) compare) :
    comments.foldl (PeerDatabase.loadLine arith) peers = peers := by
  induction comments with
  | nil => rfl
  | cons line comments ih =>
      obtain ⟨here, later⟩ := List.forall_mem_cons.mp all
      rw [List.foldl_cons, loadLine_comment here, ih later]

/-- The database of a node that was stopped and has started again. -/
def PeerDatabase.restart (arith : ScoreArith Score) (db : PeerDatabase Score)
    (file : Option Bytes) : PeerDatabase Score :=
  PeerDatabase.fresh.open_ arith (db.close arith file).2

theorem restart_found {db : PeerDatabase Score} (readable : arith.Readable)
    (isOpen : db.isOpen = true)
    (visible : ∀ (key : Bytes) info, db.peers[key]? = some info →
      key ≠ [] ∧ Visible key ∧ Visible info.address) (file : Option Bytes) (key : Bytes) :
    (db.restart arith file).peers[key]? = db.peers[key]?.bind (reread arith key) := by
  have entryVisible : ∀ entry ∈ db.peers.toList,
      entry.1 ≠ [] ∧ Visible entry.1 ∧ Visible entry.2.address := fun entry member =>
    visible entry.1 entry.2 (ExtTreeMap.mem_toList_iff_getElem?_eq_some.mp member)
  have unbroken : ∀ line ∈ fileHeader ++ db.peers.toList.map fun entry =>
      peerLine arith entry.1 entry.2, (10 : UInt8) ∉ line := by
    intro line member
    rcases List.mem_append.mp member with header | written
    · exact (fileHeader_comments line header).2
    · obtain ⟨entry, isEntry, rfl⟩ := List.mem_map.mp written
      obtain ⟨-, keyVisible, addressVisible⟩ := entryVisible entry isEntry
      exact newline_not_mem_peerLine readable keyVisible addressVisible
  have header := fun line member => (fileHeader_comments line member).1
  have loaded : ∀ peers, (db.peers.toList.map fun entry => peerLine arith entry.1 entry.2).foldl
      (PeerDatabase.loadLine arith) peers = db.peers.toList.foldl (insertKept (reread arith)) peers := by
    intro peers
    rw [List.foldl_map]
    apply List.foldl_ext
    intro peers entry member
    obtain ⟨named, keyVisible, -⟩ := entryVisible entry member
    exact loadLine_peerLine named keyVisible peers
  rw [PeerDatabase.restart, PeerDatabase.open_, PeerDatabase.close, isOpen]
  simp only [Bool.not_true, Bool.false_eq_true, if_false, Option.getD_some]
  rw [lines_flatMap unbroken, List.foldl_append, foldl_comments header, loaded]
  exact getElem?_keep db.peers key

end Lines

end Parthenon.P2p
