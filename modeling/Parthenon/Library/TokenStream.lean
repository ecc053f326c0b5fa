import Mathlib.Data.List.Basic

namespace Parthenon.Library

/-! # Token streams

Texts in lines, and lines of tokens with blanks between them.  A reader takes a value off the
front of a text; what it does with a token depends neither on the tokens behind it nor on the
blanks before it.
-/

variable {α β γ : Type}

/-- The lines of a text.  The last one may end with the text. -/
def lines [DecidableEq α] (newline : α) : List α → List (List α)
  | [] => []
  | character :: rest =>
      if character = newline then [] :: lines newline rest
      else
        match lines newline rest with
        | [] => [[character]]
        | first :: others => (character :: first) :: others

theorem lines_append [DecidableEq α] {newline : α} {line : List α} (absent : newline ∉ line)
    (rest : List α) : lines newline (line ++ newline :: rest) = line :: lines newline rest := by
  induction line with
  | nil => simp [lines]
  | cons character line ih =>
      obtain ⟨here, later⟩ := not_or.mp (mt List.mem_cons.mpr absent)
      rw [List.cons_append, lines, if_neg (Ne.symm here), ih later]

/-- Lines that are ended one by one are read back. -/
theorem lines_flatMap [DecidableEq α] {newline : α} {written : List (List α)}
    (absent : ∀ line ∈ written, newline ∉ line) :
    lines newline (written.flatMap (· ++ [newline])) = written := by
  induction written with
  | nil => rfl
  | cons line written ih =>
      obtain ⟨here, later⟩ := List.forall_mem_cons.mp absent
      rw [List.flatMap_cons, List.append_assoc, List.singleton_append, lines_append here, ih later]

/-- Tokens with a blank before each of them. -/
def spaced (blank : α) (tokens : List (List α)) : List α := tokens.flatMap (blank :: ·)

@[simp] theorem spaced_nil (blank : α) : spaced blank [] = [] := rfl

@[simp] theorem spaced_cons (blank : α) (token : List α) (tokens : List (List α)) :
    spaced blank (token :: tokens) = blank :: (token ++ spaced blank tokens) := rfl

theorem intercalate_cons (blank : α) (token : List α) (tokens : List (List α)) :
    [blank].intercalate (token :: tokens) = token ++ spaced blank tokens := by
  induction tokens generalizing token with
  | nil => simp
  | cons next tokens ih => rw [List.intercalate_cons_cons, ih]; simp

section Scan

variable {blank : α} {inside : α → Bool} {token : List α}

/-- A scan of the characters of a token stops at the blank behind it. -/
theorem takeWhile_spaced (all : ∀ character ∈ token, inside character = true)
    (stops : inside blank = false) (tokens : List (List α)) :
    (token ++ spaced blank tokens).takeWhile inside = token := by
  rw [List.takeWhile_append_of_pos all]
  cases tokens with
  | nil => simp
  | cons next tokens => simp [stops]

theorem dropWhile_spaced (all : ∀ character ∈ token, inside character = true)
    (stops : inside blank = false) (tokens : List (List α)) :
    (token ++ spaced blank tokens).dropWhile inside = spaced blank tokens := by
  rw [List.dropWhile_append_of_pos all]
  cases tokens with
  | nil => simp
  | cons next tokens => simp [stops]

end Scan

/-- What takes a value off the front of a text. -/
abbrev TokenReader (α β : Type) := StateT (List α) Option β

/-- The reader reads the token as the value, whatever tokens there are behind it. -/
def Reads (blank : α) (reader : TokenReader α β) (token : List α) (value : β) : Prop :=
  ∀ tokens, reader (spaced blank (token :: tokens)) = some (value, spaced blank tokens)

/-- If the reader succeeds, then on exactly the token. -/
def Consumes (blank : α) (reader : TokenReader α β) (token : List α) : Prop :=
  ∀ tokens value rest,
    reader (spaced blank (token :: tokens)) = some (value, rest) → rest = spaced blank tokens

theorem Reads.consumes {blank : α} {reader : TokenReader α β} {token : List α} {value : β}
    (reads : Reads blank reader token value) : Consumes blank reader token := by
  intro tokens other rest read
  rw [reads] at read
  cases read
  rfl

theorem Reads.bind {blank : α} {reader : TokenReader α β} {token : List α} {value : β}
    (reads : Reads blank reader token value) (next : β → TokenReader α γ) (tokens : List (List α)) :
    (reader >>= next) (spaced blank (token :: tokens)) = next value (spaced blank tokens) := by
  change (reader (spaced blank (token :: tokens)) >>= fun read => next read.1 read.2) = _
  rw [reads]
  rfl

theorem bind_read {reader : TokenReader α β} {next : β → TokenReader α γ} {text : List α}
    {result : γ × List α} (read : (reader >>= next) text = some result) :
    ∃ value rest, reader text = some (value, rest) ∧ next value rest = some result := by
  obtain ⟨⟨value, rest⟩, isRead, later⟩ := Option.bind_eq_some_iff.mp read
  exact ⟨value, rest, isRead, later⟩

theorem Consumes.bind {blank : α} {reader : TokenReader α β} {token : List α}
    (consumes : Consumes blank reader token) {next : β → TokenReader α γ} {tokens : List (List α)}
    {result : γ × List α}
    (read : (reader >>= next) (spaced blank (token :: tokens)) = some result) :
    ∃ value, reader (spaced blank (token :: tokens)) = some (value, spaced blank tokens) ∧
      next value (spaced blank tokens) = some result := by
  obtain ⟨value, rest, isRead, later⟩ := bind_read read
  cases consumes tokens value rest isRead
  exact ⟨value, isRead, later⟩

/-- A nonempty run of characters that are not blank, after blanks. -/
def readWord (isBlank : α → Bool) : TokenReader α (List α) := fun text =>
  let visible := text.dropWhile isBlank
  let word := visible.takeWhile (!isBlank ·)
  if word.isEmpty then none else some (word, visible.dropWhile (!isBlank ·))

section Words

variable {blank : α} {isBlank : α → Bool} {word : List α}

theorem readWord_append (isBlank_ : isBlank blank = true) (some_ : word ≠ [])
    (visible : ∀ character ∈ word, isBlank character = false) (tokens : List (List α)) :
    readWord isBlank (word ++ spaced blank tokens) = some (word, spaced blank tokens) := by
  have inside : ∀ character ∈ word, (!isBlank character) = true := by simpa using visible
  have stops : (!isBlank blank) = false := by simp [isBlank_]
  have unskipped : (word ++ spaced blank tokens).dropWhile isBlank = word ++ spaced blank tokens := by
    cases word with
    | nil => exact absurd rfl some_
    | cons first rest => simp [visible first List.mem_cons_self]
  rw [readWord, unskipped, takeWhile_spaced inside stops, dropWhile_spaced inside stops,
    if_neg (by simpa using some_)]

/-- The first word of a line has no blank before it. -/
theorem readWord_bind (isBlank_ : isBlank blank = true) (some_ : word ≠ [])
    (visible : ∀ character ∈ word, isBlank character = false) (next : List α → TokenReader α γ)
    (tokens : List (List α)) :
    (readWord isBlank >>= next) (word ++ spaced blank tokens) = next word (spaced blank tokens) := by
  change (readWord isBlank (word ++ spaced blank tokens) >>= fun read => next read.1 read.2) = _
  rw [readWord_append isBlank_ some_ visible]
  rfl

theorem readWord_skip (isBlank_ : isBlank blank = true) (text : List α) :
    readWord isBlank (blank :: text) = readWord isBlank text := by
  simp [readWord, isBlank_]

/-- An empty token is passed over with the blank before it. -/
theorem readWord_bind_skip (isBlank_ : isBlank blank = true) (next : List α → TokenReader α γ)
    (tokens : List (List α)) :
    (readWord isBlank >>= next) (spaced blank ([] :: tokens)) =
      (readWord isBlank >>= next) (spaced blank tokens) := by
  change (readWord isBlank (spaced blank ([] :: tokens)) >>= fun read => next read.1 read.2) = _
  rw [spaced_cons, List.nil_append, readWord_skip isBlank_]
  rfl

theorem readWord_reads (isBlank_ : isBlank blank = true) (some_ : word ≠ [])
    (visible : ∀ character ∈ word, isBlank character = false) :
    Reads blank (readWord isBlank) word word := by
  intro tokens
  rw [spaced_cons, readWord_skip isBlank_, readWord_append isBlank_ some_ visible]

end Words

end Parthenon.Library
