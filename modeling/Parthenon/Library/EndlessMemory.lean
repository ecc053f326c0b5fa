import Mathlib.Data.List.Basic

namespace Parthenon.Library

/-! # Memory without end

A memory is a function from addresses to cells, and is the default everywhere behind
what was written.  A list of cells is such a memory, and a list that is grown before it is
written holds the same cells as the memory without end.
-/

variable {α : Type}

abbrev EndlessMemory (α : Type) := Nat → α

namespace EndlessMemory

def read (memory : EndlessMemory α) (offset length : Nat) : List α :=
  (List.range length).map fun index => memory (offset + index)

def write (memory : EndlessMemory α) (offset : Nat) (cells : List α) : EndlessMemory α :=
  fun address => if offset ≤ address then (cells[address - offset]?).getD (memory address)
    else memory address

/-- The cells of a list, and the default behind them. -/
def ofList [Inhabited α] (cells : List α) : EndlessMemory α := fun address => cells.getD address default

@[simp] theorem read_length (memory : EndlessMemory α) (offset length : Nat) :
    (memory.read offset length).length = length := by
  rw [read, List.length_map, List.length_range]

theorem read_getElem? (memory : EndlessMemory α) (offset : Nat) {length index : Nat}
    (inside : index < length) : (memory.read offset length)[index]? = some (memory (offset + index)) := by
  rw [read, List.getElem?_map, List.getElem?_range inside, Option.map_some]

theorem write_inside (memory : EndlessMemory α) {offset index : Nat} {cells : List α} {cell : α}
    (there : cells[index]? = some cell) : memory.write offset cells (offset + index) = cell := by
  rw [write, if_pos (Nat.le_add_right offset index), Nat.add_sub_cancel_left, there, Option.getD_some]

theorem write_outside (memory : EndlessMemory α) {offset address : Nat} {cells : List α}
    (outside : address < offset ∨ offset + cells.length ≤ address) :
    memory.write offset cells address = memory address := by
  rw [write]
  split
  · rename_i behind
    rw [List.getElem?_eq_none (by omega), Option.getD_none]
  · rfl

/-- What was written is read. -/
theorem read_write (memory : EndlessMemory α) (offset : Nat) (cells : List α) :
    (memory.write offset cells).read offset cells.length = cells := by
  apply List.ext_getElem?
  intro index
  by_cases inside : index < cells.length
  · rw [read_getElem? _ _ inside, write_inside memory (List.getElem?_eq_getElem inside),
      List.getElem?_eq_getElem inside]
  · rw [List.getElem?_eq_none (by rw [read_length]; omega), List.getElem?_eq_none (by omega)]

/-- What was written elsewhere is not. -/
theorem read_write_disjoint (memory : EndlessMemory α) {offset other length : Nat} {cells : List α}
    (apart : other + length ≤ offset ∨ offset + cells.length ≤ other) :
    (memory.write offset cells).read other length = memory.read other length := by
  rw [read, read]
  apply List.map_congr_left
  intro index member
  have inside := List.mem_range.mp member
  exact write_outside memory (by omega)

section

variable [Inhabited α]

theorem ofList_getElem (cells : List α) {address : Nat} (inside : address < cells.length) :
    ofList cells address = cells[address] := by
  rw [ofList, List.getD_eq_getElem?_getD, List.getElem?_eq_getElem inside, Option.getD_some]

theorem ofList_outside (cells : List α) {address : Nat} (outside : cells.length ≤ address) :
    ofList cells address = default := by
  rw [ofList, List.getD_eq_getElem?_getD, List.getElem?_eq_none outside, Option.getD_none]

/-- Growing a list by defaults changes no cell. -/
theorem ofList_grow (cells : List α) (count : Nat) :
    ofList (cells ++ List.replicate count default) = ofList cells := by
  funext address
  simp only [ofList, List.getD_eq_getElem?_getD]
  by_cases inside : address < cells.length
  · rw [List.getElem?_append_left inside]
  · rw [List.getElem?_append_right (Nat.not_lt.mp inside), List.getElem?_replicate,
      List.getElem?_eq_none (Nat.not_lt.mp inside)]
    split <;> rfl

/-- A range is read from the list as far as it goes. -/
theorem ofList_read (cells : List α) (offset length : Nat) :
    (ofList cells).read offset length = (cells.drop offset).take length ++
      List.replicate (length - ((cells.drop offset).take length).length) default := by
  apply List.ext_getElem?
  intro index
  by_cases within : index < length
  · rw [read_getElem? _ _ within, ofList, List.getD_eq_getElem?_getD]
    by_cases there : offset + index < cells.length
    · rw [List.getElem?_append_left (by rw [List.length_take, List.length_drop]; omega),
        List.getElem?_take_of_lt within, List.getElem?_drop, List.getElem?_eq_getElem there,
        Option.getD_some]
    · rw [List.getElem?_append_right (by rw [List.length_take, List.length_drop]; omega),
        List.getElem?_replicate, if_pos (by rw [List.length_take, List.length_drop]; omega),
        List.getElem?_eq_none (Nat.not_lt.mp there), Option.getD_none]
  · rw [List.getElem?_eq_none (by rw [read_length]; omega), List.getElem?_eq_none (by
      rw [List.length_append, List.length_replicate, List.length_take, List.length_drop]
      omega)]

theorem ofList_read_of_le (cells : List α) {offset length : Nat}
    (inside : offset + length ≤ cells.length) :
    (ofList cells).read offset length = (cells.drop offset).take length := by
  have whole : ((cells.drop offset).take length).length = length := by
    rw [List.length_take, List.length_drop]
    omega
  rw [ofList_read, whole, Nat.sub_self, List.replicate_zero, List.append_nil]

theorem ofList_write (cells new : List α) {offset : Nat} (inside : offset + new.length ≤ cells.length) :
    (ofList cells).write offset new =
      ofList (cells.take offset ++ new ++ cells.drop (offset + new.length)) := by
  have front : (cells.take offset).length = offset := by
    rw [List.length_take]
    omega
  funext address
  by_cases before : address < offset
  · rw [write_outside _ (.inl before), ofList, ofList, List.getD_eq_getElem?_getD,
      List.getD_eq_getElem?_getD, List.append_assoc, List.getElem?_append_left (by omega),
      List.getElem?_take_of_lt before]
  · by_cases behind : offset + new.length ≤ address
    · rw [write_outside _ (.inr behind), ofList, ofList, List.getD_eq_getElem?_getD,
        List.getD_eq_getElem?_getD, List.getElem?_append_right (by rw [List.length_append]; omega),
        List.length_append, front, List.getElem?_drop]
      congr 2
      omega
    · obtain ⟨index, rfl⟩ := Nat.exists_eq_add_of_le (Nat.not_lt.mp before)
      have there : index < new.length := by omega
      rw [write_inside _ (List.getElem?_eq_getElem there), ofList, List.getD_eq_getElem?_getD,
        List.append_assoc, List.getElem?_append_right (by omega), front, Nat.add_sub_cancel_left,
        List.getElem?_append_left there, List.getElem?_eq_getElem there, Option.getD_some]

end

end EndlessMemory

end Parthenon.Library
