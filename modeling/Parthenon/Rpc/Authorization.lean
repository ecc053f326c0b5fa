import Mathlib.Data.List.GetD
import Parthenon.Monetary.Denominations

namespace Parthenon.Rpc

open Library Storage Common Monetary

/-! # Authorization

A request shows its credentials in a header: a scheme, and the name and the password in
base 64.  The comparison that takes the same time for all headers tells lengths apart by
their last byte only, and takes what is missing for zeros.
-/

def base64Table : Bytes :=
  text "ABCDEFGHIJKLMNOPQRSTUVWXYZabcdefghijklmnopqrstuvwxyz0123456789+/".toList

/-- The character of six bits of a chunk. -/
def base64Digit (chunk shift : UInt32) : UInt8 :=
  base64Table.getD (chunk >>> shift &&& 0x3F).toNat 0

def base64Encode : Bytes → Bytes
  | first :: second :: third :: rest =>
      let chunk := first.toUInt32 <<< 16 ||| second.toUInt32 <<< 8 ||| third.toUInt32
      base64Digit chunk 18 :: base64Digit chunk 12 :: base64Digit chunk 6 :: base64Digit chunk 0 ::
        base64Encode rest
  | [first, second] =>
      let chunk := first.toUInt32 <<< 16 ||| second.toUInt32 <<< 8
      [base64Digit chunk 18, base64Digit chunk 12, base64Digit chunk 6, 61]
  | [first] =>
      let chunk := first.toUInt32 <<< 16
      [base64Digit chunk 18, base64Digit chunk 12, 61, 61]
  | [] => []

def startsWithCaseInsensitive (value start : Bytes) : Bool :=
  if value.length < start.length then false
  else (start.zip value).all fun pair => toLower pair.1 = toLower pair.2

def trimAsciiWhitespace (value : Bytes) : Bytes := (value.dropWhile isSpace).rdropWhile isSpace

def constantTimeEquals (lhs rhs : Bytes) : Bool :=
  let diff := (List.range (max lhs.length rhs.length)).foldl
    (fun diff index => diff ||| (lhs.getD index 0 ^^^ rhs.getD index 0))
    (UInt8.ofNat (lhs.length ^^^ rhs.length))
  diff = 0

structure RPCServer where
  authUser : Bytes
  authPassword : Bytes

namespace RPCServer

def configureBasicAuth (_server : RPCServer) (user password : Bytes) : RPCServer :=
  { authUser := user, authPassword := password }

def isAuthenticationEnabled (server : RPCServer) : Bool :=
  !server.authUser.isEmpty && !server.authPassword.isEmpty

def isAuthorized (server : RPCServer) (authorizationHeader : Bytes) : Bool :=
  if !server.isAuthenticationEnabled then true
  else if !startsWithCaseInsensitive authorizationHeader (text "Basic ".toList) then false
  else
    let providedToken := trimAsciiWhitespace (authorizationHeader.drop 6)
    let expectedToken := base64Encode (server.authUser ++ text [':'] ++ server.authPassword)
    constantTimeEquals providedToken expectedToken

end RPCServer

/-! ## Base 64 -/

theorem base64Table_nodup : base64Table.Nodup := by decide +kernel

theorem base64Table_length : base64Table.length = 64 := by decide +kernel

/-- No character of the table is a blank, a zero or the padding. -/
theorem base64Table_visible :
    ∀ character ∈ base64Table, isSpace character = false ∧ character ≠ 0 ∧ character ≠ 61 := by
  decide +kernel

theorem base64Digit_eq (chunk : UInt32) {shift : UInt32} (small : shift.toNat < 32) :
    ∃ inside : chunk.toNat / 2 ^ shift.toNat % 64 < base64Table.length,
      base64Digit chunk shift = base64Table[chunk.toNat / 2 ^ shift.toNat % 64] := by
  have inside : chunk.toNat / 2 ^ shift.toNat % 64 < base64Table.length := by
    rw [base64Table_length]
    exact Nat.mod_lt _ (by decide)
  refine ⟨inside, ?_⟩
  have mask : (0x3F : UInt32).toNat = 2 ^ 6 - 1 := rfl
  rw [base64Digit, UInt32.toNat_and, mask, Nat.and_two_pow_sub_one_eq_mod, UInt32.toNat_shiftRight,
    Nat.mod_eq_of_lt small, Nat.shiftRight_eq_div_pow]
  rw [List.getD_eq_getElem?_getD, List.getElem?_eq_getElem inside, Option.getD_some]

theorem base64Digit_mem (chunk : UInt32) {shift : UInt32} (small : shift.toNat < 32) :
    base64Digit chunk shift ∈ base64Table := by
  obtain ⟨inside, same⟩ := base64Digit_eq chunk small
  rw [same]
  exact List.getElem_mem inside

theorem base64Digit_inj {chunk other shift : UInt32} (small : shift.toNat < 32)
    (same : base64Digit chunk shift = base64Digit other shift) :
    chunk.toNat / 2 ^ shift.toNat % 64 = other.toNat / 2 ^ shift.toNat % 64 := by
  obtain ⟨_, first⟩ := base64Digit_eq chunk small
  obtain ⟨_, second⟩ := base64Digit_eq other small
  rw [first, second] at same
  exact (base64Table_nodup.getElem_inj_iff).mp same

/-- The bytes of a chunk, one after another. -/
theorem chunk_toNat (first second third : UInt8) :
    (first.toUInt32 <<< 16 ||| second.toUInt32 <<< 8 ||| third.toUInt32).toNat =
      first.toNat * 65536 + second.toNat * 256 + third.toNat := by
  have bound := first.toNat_lt
  have boundSecond := second.toNat_lt
  have boundThird := third.toNat_lt
  have low : first.toNat * 2 ^ 16 % 2 ^ 32 = first.toNat <<< 16 := by
    rw [Nat.shiftLeft_eq]
    omega
  have middle : second.toNat * 2 ^ 8 % 2 ^ 32 = second.toNat * 256 :=
    Nat.mod_eq_of_lt (Nat.lt_trans (Nat.mul_lt_mul_of_pos_right boundSecond (by decide)) (by decide))
  have shifts : (16 : UInt32).toNat % 32 = 16 ∧ (8 : UInt32).toNat % 32 = 8 := ⟨rfl, rfl⟩
  rw [UInt32.toNat_or, UInt32.toNat_or, UInt32.toNat_shiftLeft, UInt32.toNat_shiftLeft, shifts.1,
    shifts.2, UInt8.toNat_toUInt32, UInt8.toNat_toUInt32, UInt8.toNat_toUInt32, Nat.shiftLeft_eq,
    Nat.shiftLeft_eq, low, middle, ← Nat.shiftLeft_add_eq_or_of_lt (by omega)]
  have joined : first.toNat <<< 16 + second.toNat * 256 =
      (first.toNat * 256 + second.toNat) <<< 8 := by
    rw [Nat.shiftLeft_eq, Nat.shiftLeft_eq]
    ring
  rw [joined, ← Nat.shiftLeft_add_eq_or_of_lt (by omega), Nat.shiftLeft_eq]
  ring

theorem chunk_toNat_two (first second : UInt8) :
    (first.toUInt32 <<< 16 ||| second.toUInt32 <<< 8).toNat =
      first.toNat * 65536 + second.toNat * 256 := by
  have whole := chunk_toNat first second 0
  rwa [show (0 : UInt8).toUInt32 = 0 from rfl, UInt32.or_zero, show (0 : UInt8).toNat = 0 from rfl,
    Nat.add_zero] at whole

theorem chunk_toNat_one (first : UInt8) : (first.toUInt32 <<< 16).toNat = first.toNat * 65536 := by
  have whole := chunk_toNat_two first 0
  rwa [show (0 : UInt8).toUInt32 <<< 8 = 0 from rfl, UInt32.or_zero,
    show (0 : UInt8).toNat * 256 = 0 from rfl, Nat.add_zero] at whole

theorem digit_ne_padding {chunk shift : UInt32} (small : shift.toNat < 32) :
    base64Digit chunk shift ≠ 61 :=
  (base64Table_visible _ (base64Digit_mem chunk small)).2.2

/-- What two digits tell of a chunk. -/
theorem two_digits_inj {chunk other : UInt32} (bound : chunk.toNat < 2 ^ 24)
    (boundOther : other.toNat < 2 ^ 24) (first : base64Digit chunk 18 = base64Digit other 18)
    (second : base64Digit chunk 12 = base64Digit other 12) :
    chunk.toNat / 4096 = other.toNat / 4096 := by
  have high := base64Digit_inj (by decide) first
  have low := base64Digit_inj (by decide) second
  rw [show (18 : UInt32).toNat = 18 from rfl] at high
  rw [show (12 : UInt32).toNat = 12 from rfl] at low
  omega

theorem three_digits_inj {chunk other : UInt32} (bound : chunk.toNat < 2 ^ 24)
    (boundOther : other.toNat < 2 ^ 24) (first : base64Digit chunk 18 = base64Digit other 18)
    (second : base64Digit chunk 12 = base64Digit other 12)
    (third : base64Digit chunk 6 = base64Digit other 6) : chunk.toNat / 64 = other.toNat / 64 := by
  have high := two_digits_inj bound boundOther first second
  have low := base64Digit_inj (by decide) third
  rw [show (6 : UInt32).toNat = 6 from rfl] at low
  omega

theorem four_digits_inj {chunk other : UInt32} (bound : chunk.toNat < 2 ^ 24)
    (boundOther : other.toNat < 2 ^ 24) (first : base64Digit chunk 18 = base64Digit other 18)
    (second : base64Digit chunk 12 = base64Digit other 12)
    (third : base64Digit chunk 6 = base64Digit other 6)
    (fourth : base64Digit chunk 0 = base64Digit other 0) : chunk.toNat = other.toNat := by
  have high := three_digits_inj bound boundOther first second third
  have low := base64Digit_inj (by decide) fourth
  rw [show (0 : UInt32).toNat = 0 from rfl] at low
  omega

/-- Different bytes are written differently. -/
theorem base64Encode_injective (bytes other : Bytes) (same : base64Encode bytes = base64Encode other) :
    bytes = other := by
  have padded {chunk shift : UInt32} (small : shift.toNat < 32) (ends : base64Digit chunk shift = 61) :
      False := digit_ne_padding small ends
  induction bytes using base64Encode.induct generalizing other with
  | case1 first second third rest ih =>
      have := first.toNat_lt
      have := second.toNat_lt
      have := third.toNat_lt
      rcases other with _ | ⟨one, _ | ⟨two, _ | ⟨three, others⟩⟩⟩
      · cases same
      · simp only [base64Encode, List.cons.injEq] at same
        exact (padded (by decide) same.2.2.1).elim
      · simp only [base64Encode, List.cons.injEq] at same
        exact (padded (by decide) same.2.2.2.1).elim
      · simp only [base64Encode, List.cons.injEq] at same
        obtain ⟨digit, digitTwo, digitThree, digitFour, rests⟩ := same
        have := one.toNat_lt
        have := two.toNat_lt
        have := three.toNat_lt
        have chunks := four_digits_inj (by rw [chunk_toNat]; omega) (by rw [chunk_toNat]; omega)
          digit digitTwo digitThree digitFour
        rw [chunk_toNat, chunk_toNat] at chunks
        rw [ih others rests, UInt8.toNat_inj.mp (show first.toNat = one.toNat by omega),
          UInt8.toNat_inj.mp (show second.toNat = two.toNat by omega),
          UInt8.toNat_inj.mp (show third.toNat = three.toNat by omega)]
  | case2 first second =>
      have := first.toNat_lt
      have := second.toNat_lt
      rcases other with _ | ⟨one, _ | ⟨two, _ | ⟨three, others⟩⟩⟩
      · cases same
      · simp only [base64Encode, List.cons.injEq] at same
        exact (padded (by decide) same.2.2.1).elim
      · simp only [base64Encode, List.cons.injEq] at same
        obtain ⟨digit, digitTwo, digitThree, _⟩ := same
        have := one.toNat_lt
        have := two.toNat_lt
        have chunks := three_digits_inj (by rw [chunk_toNat_two]; omega)
          (by rw [chunk_toNat_two]; omega) digit digitTwo digitThree
        rw [chunk_toNat_two, chunk_toNat_two] at chunks
        rw [UInt8.toNat_inj.mp (show first.toNat = one.toNat by omega),
          UInt8.toNat_inj.mp (show second.toNat = two.toNat by omega)]
      · simp only [base64Encode, List.cons.injEq] at same
        exact (padded (by decide) same.2.2.2.1.symm).elim
  | case3 first =>
      have := first.toNat_lt
      rcases other with _ | ⟨one, _ | ⟨two, _ | ⟨three, others⟩⟩⟩
      · cases same
      · simp only [base64Encode, List.cons.injEq] at same
        obtain ⟨digit, digitTwo, _⟩ := same
        have := one.toNat_lt
        have chunks := two_digits_inj (by rw [chunk_toNat_one]; omega)
          (by rw [chunk_toNat_one]; omega) digit digitTwo
        rw [chunk_toNat_one, chunk_toNat_one] at chunks
        rw [UInt8.toNat_inj.mp (show first.toNat = one.toNat by omega)]
      · simp only [base64Encode, List.cons.injEq] at same
        exact (padded (by decide) same.2.2.1.symm).elim
      · simp only [base64Encode, List.cons.injEq] at same
        exact (padded (by decide) same.2.2.1.symm).elim
  | case4 =>
      rcases other with _ | ⟨one, _ | ⟨two, _ | ⟨three, others⟩⟩⟩
      · rfl
      · cases same
      · cases same
      · cases same

theorem base64Encode_ne_nil {bytes : Bytes} (nonempty : bytes ≠ []) : base64Encode bytes ≠ [] := by
  intro none
  exact nonempty (base64Encode_injective bytes [] none)

/-- What is written in base 64 has no blank and no zero. -/
theorem base64Encode_visible (bytes : Bytes) :
    ∀ character ∈ base64Encode bytes, isSpace character = false ∧ character ≠ 0 := by
  have digit {chunk shift : UInt32} (small : shift.toNat < 32) :
      isSpace (base64Digit chunk shift) = false ∧ base64Digit chunk shift ≠ 0 :=
    let visible := base64Table_visible _ (base64Digit_mem chunk small)
    ⟨visible.1, visible.2.1⟩
  have padding : isSpace 61 = false ∧ (61 : UInt8) ≠ 0 := by decide
  induction bytes using base64Encode.induct with
  | case1 first second third rest ih =>
      simp only [base64Encode, List.forall_mem_cons]
      exact ⟨digit (by decide), digit (by decide), digit (by decide), digit (by decide), ih⟩
  | case2 first second =>
      simp only [base64Encode, List.forall_mem_cons]
      exact ⟨digit (by decide), digit (by decide), digit (by decide), padding, nofun⟩
  | case3 first =>
      simp only [base64Encode, List.forall_mem_cons]
      exact ⟨digit (by decide), digit (by decide), padding, padding, nofun⟩
  | case4 => nofun

/-! ## The comparison -/

theorem foldl_or_eq_zero (differs : Nat → UInt8) (indices : List Nat) (start : UInt8) :
    indices.foldl (fun diff index => diff ||| differs index) start = 0 ↔
      start = 0 ∧ ∀ index ∈ indices, differs index = 0 := by
  induction indices generalizing start with
  | nil => simp
  | cons index rest ih =>
      rw [List.foldl_cons, ih, UInt8.or_eq_zero_iff, List.forall_mem_cons, and_assoc]

theorem constantTimeEquals_iff {lhs rhs : Bytes} :
    constantTimeEquals lhs rhs = true ↔
      lhs.length % 256 = rhs.length % 256 ∧ ∀ index, lhs.getD index 0 = rhs.getD index 0 := by
  have lengths : UInt8.ofNat (lhs.length ^^^ rhs.length) = 0 ↔
      lhs.length % 256 = rhs.length % 256 := by
    rw [UInt8.ofNat_xor, UInt8.xor_eq_zero_iff, ← UInt8.toNat_inj, UInt8.toNat_ofNat',
      UInt8.toNat_ofNat']
  rw [constantTimeEquals, decide_eq_true_eq, foldl_or_eq_zero, lengths]
  refine and_congr_right fun _ => ?_
  constructor
  · intro equal index
    by_cases inside : index < max lhs.length rhs.length
    · exact UInt8.xor_eq_zero_iff.mp (equal index (List.mem_range.mpr inside))
    · rw [List.getD_eq_default _ _ (by omega), List.getD_eq_default _ _ (by omega)]
  · intro equal index _
    exact UInt8.xor_eq_zero_iff.mpr (equal index)

/-- What passes for a text without zeros is the text, and zeros after it that are as many as
the last byte of the length does not tell. -/
theorem constantTimeEquals_visible {lhs rhs : Bytes} (visible : ∀ byte ∈ rhs, byte ≠ 0) :
    constantTimeEquals lhs rhs = true ↔
      ∃ count, lhs = rhs ++ List.replicate (256 * count) 0 := by
  rw [constantTimeEquals_iff]
  constructor
  · rintro ⟨lengths, equal⟩
    have long : rhs.length ≤ lhs.length := by
      by_contra short
      have inside : lhs.length < rhs.length := Nat.lt_of_not_le short
      have missing := equal lhs.length
      rw [List.getD_eq_default _ _ (Nat.le_refl _), List.getD_eq_getElem _ _ inside] at missing
      exact visible _ (List.getElem_mem inside) missing.symm
    refine ⟨(lhs.length - rhs.length) / 256, List.ext_getElem ?_ fun index inside other => ?_⟩
    · rw [List.length_append, List.length_replicate]
      omega
    · have same := equal index
      rw [List.getD_eq_getElem?_getD, List.getD_eq_getElem?_getD, List.getElem?_eq_getElem inside,
        Option.getD_some] at same
      rw [same, List.getElem_append]
      split
      · rename_i before
        rw [List.getElem?_eq_getElem before, Option.getD_some]
      · rename_i behind
        rw [List.getElem?_eq_none (Nat.le_of_not_lt behind), List.getElem_replicate]
        rfl
  · rintro ⟨count, rfl⟩
    refine ⟨?_, fun index => ?_⟩
    · rw [List.length_append, List.length_replicate, Nat.add_mul_mod_self_left]
    · rw [List.getD_eq_getElem?_getD, List.getD_eq_getElem?_getD, List.getElem?_append]
      split
      · rfl
      · rename_i behind
        rw [List.getElem?_eq_none (Nat.le_of_not_lt behind), List.getElem?_replicate]
        split <;> rfl

/-! ## The header -/

/-- A text that neither begins nor ends with a blank is what remains without the blanks. -/
theorem trimAsciiWhitespace_eq_iff {value visible : Bytes} (nonempty : visible ≠ [])
    (begins : isSpace (visible.head nonempty) = false)
    (ends : isSpace (visible.getLast nonempty) = false) :
    trimAsciiWhitespace value = visible ↔ ∃ before after, value = before ++ visible ++ after ∧
      (∀ byte ∈ before, isSpace byte = true) ∧ ∀ byte ∈ after, isSpace byte = true := by
  constructor
  · rintro rfl
    refine ⟨value.takeWhile isSpace, (value.dropWhile isSpace).rtakeWhile isSpace, ?_,
      fun byte => List.mem_takeWhile_imp, fun byte => List.mem_rtakeWhile_imp⟩
    rw [trimAsciiWhitespace, List.append_assoc, List.rdropWhile_append_rtakeWhile,
      List.takeWhile_append_dropWhile]
  · rintro ⟨before, after, rfl, blanks, blanksAfter⟩
    obtain ⟨first, rest, rfl⟩ := List.exists_cons_of_ne_nil nonempty
    have front : (first :: rest ++ after).dropWhile isSpace = first :: rest ++ after :=
      List.dropWhile_cons_of_neg (Bool.eq_false_iff.mp begins)
    have back : (after.reverse ++ (first :: rest).reverse).dropWhile isSpace =
        (first :: rest).reverse.dropWhile isSpace :=
      List.dropWhile_append_of_pos fun byte member => blanksAfter byte (List.mem_reverse.mp member)
    rw [trimAsciiWhitespace, List.append_assoc, List.dropWhile_append_of_pos blanks, front,
      List.rdropWhile, List.reverse_append, back]
    exact List.rdropWhile_eq_self_iff.mpr fun _ => Bool.eq_false_iff.mp ends

theorem startsWithCaseInsensitive_iff {value start : Bytes} :
    startsWithCaseInsensitive value start = true ↔
      ∃ scheme rest, value = scheme ++ rest ∧ lower scheme = lower start := by
  induction start generalizing value with
  | nil =>
      refine ⟨fun _ => ⟨[], value, rfl, rfl⟩, fun _ => ?_⟩
      rw [startsWithCaseInsensitive, List.length_nil, if_neg (Nat.not_lt_zero _)]
      rfl
  | cons first start ih =>
      cases value with
      | nil =>
          constructor
          · intro starts
            cases starts
          · rintro ⟨scheme, rest, split, same⟩
            obtain ⟨rfl, _⟩ := List.append_eq_nil_iff.mp split.symm
            cases same
      | cons byte value =>
          have step : startsWithCaseInsensitive (byte :: value) (first :: start) = true ↔
              toLower byte = toLower first ∧ startsWithCaseInsensitive value start = true := by
            simp only [startsWithCaseInsensitive, List.length_cons, Nat.add_lt_add_iff_right,
              List.zip_cons_cons, List.all_cons]
            split
            · rw [Bool.false_eq_true, and_false]
            · rw [Bool.and_eq_true, decide_eq_true_eq, eq_comm]
          rw [step, ih]
          constructor
          · rintro ⟨same, scheme, rest, rfl, sames⟩
            exact ⟨byte :: scheme, rest, rfl, congrArg₂ List.cons same sames⟩
          · rintro ⟨scheme, rest, split, sames⟩
            cases scheme with
            | nil => cases sames
            | cons one scheme =>
                obtain ⟨rfl, rfl⟩ := List.cons.inj split
                obtain ⟨same, others⟩ := List.cons.inj sames
                exact ⟨same, scheme, rest, rfl, others⟩

/-- The header of a client that keeps to the scheme. -/
def basicHeader (user password : Bytes) : Bytes :=
  text "Basic ".toList ++ base64Encode (user ++ text [':'] ++ password)

namespace RPCServer

variable {server : RPCServer} {header : Bytes}

theorem isAuthenticationEnabled_eq_false : server.isAuthenticationEnabled = false ↔
    server.authUser = [] ∨ server.authPassword = [] := by
  rw [isAuthenticationEnabled, Bool.and_eq_false_iff, Bool.not_eq_false', Bool.not_eq_false',
    List.isEmpty_iff, List.isEmpty_iff]

/-- What passes for the credentials behind the scheme. -/
theorem token_iff {rest bytes : Bytes} (nonempty : bytes ≠ []) :
    constantTimeEquals (trimAsciiWhitespace rest) (base64Encode bytes) = true ↔
      ∃ before count after,
        rest = before ++ (base64Encode bytes ++ List.replicate (256 * count) 0) ++ after ∧
        (∀ byte ∈ before, isSpace byte = true) ∧ ∀ byte ∈ after, isSpace byte = true := by
  have visible := base64Encode_visible bytes
  have written : base64Encode bytes ≠ [] := base64Encode_ne_nil nonempty
  rw [constantTimeEquals_visible fun byte member => (visible byte member).2]
  have some_ (count : Nat) : base64Encode bytes ++ List.replicate (256 * count) 0 ≠ [] :=
    List.append_ne_nil_of_left_ne_nil written _
  have shown (count : Nat) : ∀ byte ∈ base64Encode bytes ++ List.replicate (256 * count) 0,
      isSpace byte = false := by
    intro byte member
    rcases List.mem_append.mp member with inToken | isZero
    · exact (visible byte inToken).1
    · rw [(List.mem_replicate.mp isZero).2]
      rfl
  have trimmed (count : Nat) := @trimAsciiWhitespace_eq_iff rest _ (some_ count)
    (shown count _ (List.head_mem _)) (shown count _ (List.getLast_mem _))
  simp only [trimmed]
  constructor
  · rintro ⟨count, before, after, split⟩
    exact ⟨before, count, after, split⟩
  · rintro ⟨before, count, after, split⟩
    exact ⟨count, before, after, split⟩

/-- With authentication on, a header passes exactly when it is the scheme, in any case, blanks,
the credentials in base 64, 256 zeros or a multiple of it, and blanks. -/
theorem isAuthorized_iff : server.isAuthorized header = true ↔
    server.authUser = [] ∨ server.authPassword = [] ∨
      ∃ scheme before count after,
        header = scheme ++ (before ++
          (base64Encode (server.authUser ++ text [':'] ++ server.authPassword) ++
            List.replicate (256 * count) 0) ++ after) ∧
        lower scheme = text "basic ".toList ∧
        (∀ byte ∈ before, isSpace byte = true) ∧ ∀ byte ∈ after, isSpace byte = true := by
  have credentials : server.authUser ++ text [':'] ++ server.authPassword ≠ [] := by simp [text]
  have lowered : lower (text "Basic ".toList) = text "basic ".toList := by decide +kernel
  have six {scheme : Bytes} (same : lower scheme = text "basic ".toList) : scheme.length = 6 := by
    have lengths := congrArg List.length same
    rwa [lower, List.length_map, show (text "basic ".toList).length = 6 by decide +kernel] at lengths
  rw [isAuthorized, ← or_assoc, ← isAuthenticationEnabled_eq_false]
  cases server.isAuthenticationEnabled with
  | false => simp
  | true =>
      rw [if_neg (by decide), Bool.true_eq_false, false_or]
      cases starts : startsWithCaseInsensitive header (text "Basic ".toList) with
      | false =>
          simp only [Bool.not_false, if_true, Bool.false_eq_true, false_iff]
          rintro ⟨scheme, before, count, after, rfl, same, _⟩
          rw [startsWithCaseInsensitive_iff.mpr ⟨scheme, _, rfl, same.trans lowered.symm⟩] at starts
          cases starts
      | true =>
          obtain ⟨scheme, rest, rfl, same⟩ := startsWithCaseInsensitive_iff.mp starts
          rw [lowered] at same
          have behind : (scheme ++ rest).drop 6 = rest := by
            rw [← six same, List.drop_left]
          rw [Bool.not_true, if_neg Bool.false_ne_true]
          dsimp only
          rw [behind, token_iff credentials]
          constructor
          · rintro ⟨before, count, after, rfl, blanks⟩
            exact ⟨scheme, before, count, after, rfl, same, blanks⟩
          · rintro ⟨other, before, count, after, split, sameOther, blanks⟩
            obtain ⟨rfl, rfl⟩ := List.append_inj split ((six same).trans (six sameOther).symm)
            exact ⟨before, count, after, rfl, blanks⟩

/-- The header of a client passes exactly for the credentials that it shows, as far as the colon
between the name and the password tells them apart. -/
theorem isAuthorized_basicHeader {user password : Bytes} :
    server.isAuthorized (basicHeader user password) = true ↔
      server.authUser = [] ∨ server.authPassword = [] ∨
        user ++ text [':'] ++ password = server.authUser ++ text [':'] ++ server.authPassword := by
  rw [isAuthorized_iff]
  refine or_congr_right (or_congr_right ?_)
  constructor
  · rintro ⟨scheme, before, count, after, split, same, blanks, blanksAfter⟩
    have lengths := congrArg List.length same
    rw [lower, List.length_map] at lengths
    obtain ⟨_, shown⟩ := List.append_inj split (lengths.trans (by decide +kernel)).symm
    have visible := base64Encode_visible (user ++ text [':'] ++ password)
    rw [shown] at visible
    -- what the client has written has neither blanks nor zeros
    have noBefore : before = [] := by
      apply List.eq_nil_iff_forall_not_mem.mpr
      intro byte member
      have seen := (visible byte (List.mem_append_left _ (List.mem_append_left _ member))).1
      rw [blanks byte member] at seen
      cases seen
    have noAfter : after = [] := by
      apply List.eq_nil_iff_forall_not_mem.mpr
      intro byte member
      have seen := (visible byte (List.mem_append_right _ member)).1
      rw [blanksAfter byte member] at seen
      cases seen
    have noZeros : List.replicate (256 * count) (0 : UInt8) = [] := by
      apply List.eq_nil_iff_forall_not_mem.mpr
      intro byte member
      have seen := (visible byte (List.mem_append_left _
        (List.mem_append_right _ (List.mem_append_right _ member)))).2
      exact seen (List.mem_replicate.mp member).2
    rw [noBefore, noAfter, noZeros, List.append_nil, List.append_nil, List.nil_append] at shown
    exact base64Encode_injective _ _ shown
  · intro same
    refine ⟨text "Basic ".toList, [], 0, [], ?_, by decide +kernel,
      List.forall_mem_nil _, List.forall_mem_nil _⟩
    rw [basicHeader, same, Nat.mul_zero, List.replicate_zero, List.append_nil, List.append_nil,
      List.nil_append]

/-- Names without a colon leave no doubt. -/
theorem credentials_inj {user password other otherPassword : Bytes} (plain : 58 ∉ user)
    (plainOther : 58 ∉ other) : user ++ text [':'] ++ password = other ++ text [':'] ++ otherPassword ↔
      user = other ∧ password = otherPassword := by
  have colon : text [':'] = [58] := by decide
  constructor
  · intro same
    rw [colon, List.append_assoc, List.append_assoc, List.singleton_append, List.singleton_append]
      at same
    have parts := congrArg (cut 58) same
    rw [cut_append plain, cut_append plainOther] at parts
    exact Prod.mk.inj (Option.some.inj parts)
  · rintro ⟨rfl, rfl⟩
    rfl

/-- However the server is configured and whatever it is sent: the exact headers that pass, and
which credentials a client can pass with. -/
theorem authorizes_exactly (server : RPCServer) (user password : Bytes) :
    let server := server.configureBasicAuth user password
    (∀ header, server.isAuthorized header = true ↔ user = [] ∨ password = [] ∨
      ∃ scheme before count after,
        header = scheme ++ (before ++ (base64Encode (user ++ text [':'] ++ password) ++
          List.replicate (256 * count) 0) ++ after) ∧
        lower scheme = text "basic ".toList ∧
        (∀ byte ∈ before, isSpace byte = true) ∧ ∀ byte ∈ after, isSpace byte = true) ∧
    (∀ otherUser otherPassword,
      server.isAuthorized (basicHeader otherUser otherPassword) = true ↔
        user = [] ∨ password = [] ∨
          otherUser ++ text [':'] ++ otherPassword = user ++ text [':'] ++ password) ∧
    ∀ otherUser otherPassword, 58 ∉ otherUser → 58 ∉ user →
      (server.isAuthorized (basicHeader otherUser otherPassword) = true ↔
        user = [] ∨ password = [] ∨ otherUser = user ∧ otherPassword = password) := by
  refine ⟨fun _ => isAuthorized_iff, fun _ _ => isAuthorized_basicHeader, ?_⟩
  intro otherUser otherPassword plainOther plain
  exact isAuthorized_basicHeader.trans
    (or_congr_right (or_congr_right (credentials_inj plainOther plain)))

end RPCServer

end Parthenon.Rpc
