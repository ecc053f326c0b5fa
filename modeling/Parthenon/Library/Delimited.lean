import Mathlib.Data.List.Basic

namespace Parthenon.Library

/-! # Delimited texts

Texts in fields that a separator ends.  A text is cut at its first separator, and
its first fields are read by cutting again and again.
-/

variable {α : Type u} [DecidableEq α] {separator : α}

/-- What is before the first separator and what is after it. -/
def cut (separator : α) : List α → Option (List α × List α)
  | [] => none
  | character :: rest =>
      if character = separator then some ([], rest)
      else (cut separator rest).map fun parts => (character :: parts.1, parts.2)

theorem cut_eq_none_iff {text : List α} : cut separator text = none ↔ separator ∉ text := by
  induction text with
  | nil => simp [cut]
  | cons character rest ih =>
      rw [cut, List.mem_cons, not_or]
      by_cases here : character = separator
      · simp [here]
      · simp [here, ih, Ne.symm here]

theorem cut_append {front : List α} (absent : separator ∉ front) (back : List α) :
    cut separator (front ++ separator :: back) = some (front, back) := by
  induction front with
  | nil => simp [cut]
  | cons character rest ih =>
      obtain ⟨here, later⟩ := not_or.mp (mt List.mem_cons.mpr absent)
      rw [List.cons_append, cut, if_neg (Ne.symm here), ih later]
      rfl

theorem cut_some {text front back : List α} (found : cut separator text = some (front, back)) :
    separator ∉ front ∧ text = front ++ separator :: back := by
  induction text generalizing front with
  | nil => cases found
  | cons character rest ih =>
      rw [cut] at found
      split at found
      · rename_i here
        cases found
        exact ⟨List.not_mem_nil, by rw [here]; rfl⟩
      · rename_i here
        obtain ⟨parts, isParts, same⟩ := Option.map_eq_some_iff.mp found
        cases same
        obtain ⟨absent, isRest⟩ := ih isParts
        refine ⟨?_, by rw [isRest]; rfl⟩
        rw [List.mem_cons, not_or]
        exact ⟨Ne.symm here, absent⟩

/-- The first `count` fields of a text and what is after them.  The last field may
end with the text. -/
def takeFields (separator : α) : Nat → List α → Option (List (List α) × List α)
  | 0, text => some ([], text)
  | count + 1, text =>
      match cut separator text with
      | some (field, rest) =>
          (takeFields separator count rest).map fun taken => (field :: taken.1, taken.2)
      | none => if count = 0 then some ([text], []) else none

theorem takeFields_some {count : Nat} {text rest : List α} {fields : List (List α)}
    (taken : takeFields separator (count + 1) text = some (fields, rest)) :
    fields.length = count + 1 ∧ (∀ field ∈ fields, separator ∉ field) ∧
      (rest = [] ∧ text = [separator].intercalate fields ∨
        text = [separator].intercalate (fields ++ [rest])) := by
  induction count generalizing text fields with
  | zero =>
      rw [takeFields] at taken
      cases found : cut separator text with
      | none =>
          rw [found] at taken
          cases taken
          exact ⟨rfl, by simpa using cut_eq_none_iff.mp found, .inl ⟨rfl, by simp⟩⟩
      | some parts =>
          obtain ⟨absent, isText⟩ := cut_some found
          rw [found] at taken
          cases taken
          exact ⟨rfl, by simpa using absent, .inr (by simpa using isText)⟩
  | succ count ih =>
      rw [takeFields] at taken
      cases found : cut separator text with
      | none =>
          rw [found] at taken
          cases taken
      | some parts =>
          obtain ⟨absent, isText⟩ := cut_some found
          rw [found] at taken
          obtain ⟨later, isLater, same⟩ := Option.map_eq_some_iff.mp taken
          cases same
          obtain ⟨lengths, absentLater, joined⟩ := ih isLater
          obtain ⟨next, others, isNext⟩ : ∃ next others, later.1 = next :: others :=
            List.exists_cons_of_length_eq_add_one lengths
          refine ⟨by rw [List.length_cons, lengths], ?_, ?_⟩
          · intro field member
            rcases List.mem_cons.mp member with rfl | isLater
            · exact absent
            · exact absentLater field isLater
          · rw [isText]
            rw [isNext] at joined ⊢
            rcases joined with ⟨ends, joined⟩ | joined
            · exact .inl ⟨ends, by rw [joined]; simp⟩
            · exact .inr (by rw [joined]; simp)

/-- Fields that hold no separator are read back. -/
theorem takeFields_intercalate {fields : List (List α)} {count : Nat}
    (lengths : fields.length = count + 1) (absent : ∀ field ∈ fields, separator ∉ field) :
    takeFields separator (count + 1) ([separator].intercalate fields) = some (fields, []) := by
  induction count generalizing fields with
  | zero =>
      obtain ⟨field, rfl⟩ := List.length_eq_one_iff.mp lengths
      have none_ : cut separator field = none := cut_eq_none_iff.mpr (absent field List.mem_cons_self)
      simp [takeFields, none_]
  | succ count ih =>
      match fields with
      | [] => simp at lengths
      | [_] => simp at lengths
      | field :: next :: others =>
          have shorter : (next :: others).length = count + 1 := by simpa using lengths
          have later := ih shorter fun other member => absent other (List.mem_cons_of_mem field member)
          have here := cut_append (absent field List.mem_cons_self)
            ([separator].intercalate (next :: others))
          have joined : [separator].intercalate (field :: next :: others) =
              field ++ separator :: [separator].intercalate (next :: others) := by simp
          rw [joined, takeFields, here]
          dsimp only
          rw [later]
          rfl

omit [DecidableEq α] in
theorem not_mem_intercalate {other : α} {pieces : List (List α)}
    (absent : ∀ piece ∈ pieces, other ∉ piece) (differs : other ≠ separator) :
    other ∉ [separator].intercalate pieces := by
  induction pieces with
  | nil => simp
  | cons first rest ih =>
      obtain ⟨here, later⟩ := List.forall_mem_cons.mp absent
      cases rest with
      | nil => simpa using here
      | cons next others =>
          rw [List.intercalate_cons_cons, List.mem_append, List.mem_append, List.mem_singleton]
          rintro ((inFirst | isSeparator) | inRest)
          · exact here inFirst
          · exact differs isSeparator
          · exact ih later inRest

theorem not_mem_of_mem_splitOn {text piece : List α} (member : piece ∈ text.splitOn separator) :
    separator ∉ piece := by
  induction text generalizing piece with
  | nil =>
      rw [List.splitOn_nil, List.mem_singleton] at member
      rw [member]
      exact List.not_mem_nil
  | cons character rest ih =>
      rw [List.splitOn_cons_eq_if_modifyHead] at member
      split at member
      · rcases List.mem_cons.mp member with rfl | later
        · exact List.not_mem_nil
        · exact ih later
      · rename_i here
        cases pieces : rest.splitOn separator with
        | nil => exact absurd pieces (List.splitOn_ne_nil separator rest)
        | cons first others =>
            rw [pieces, List.modifyHead_cons] at member
            rcases List.mem_cons.mp member with rfl | later
            · rw [List.mem_cons, not_or]
              refine ⟨fun same => here (by simp [same]), ih ?_⟩
              rw [pieces]
              exact List.mem_cons_self
            · apply ih
              rw [pieces]
              exact List.mem_cons_of_mem first later

omit [DecidableEq α] in
theorem mem_intercalate {pieces : List (List α)} {piece : List α} {character : α}
    (member : piece ∈ pieces) (inside : character ∈ piece) :
    character ∈ [separator].intercalate pieces := by
  induction pieces with
  | nil => cases member
  | cons first rest ih =>
      cases rest with
      | nil =>
          rw [List.mem_singleton.mp member] at inside
          simpa using inside
      | cons next others =>
          rw [List.intercalate_cons_cons, List.mem_append, List.mem_append]
          rcases List.mem_cons.mp member with rfl | later
          · exact .inl (.inl inside)
          · exact .inr (ih later)

theorem mem_of_mem_splitOn {text piece : List α} {character : α}
    (member : piece ∈ text.splitOn separator) (inside : character ∈ piece) : character ∈ text := by
  rw [← text.intercalate_splitOn separator]
  exact mem_intercalate member inside

end Parthenon.Library
