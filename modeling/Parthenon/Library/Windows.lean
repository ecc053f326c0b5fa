import Mathlib.Data.List.Count
import Mathlib.Order.Basic

namespace Parthenon.Library

/-! # Sliding windows

Events that are counted by epochs, each with a bound of its own, are bounded in every
window of time as well: a window no longer than the gap that epochs leave between every
second of them meets two epochs at most.
-/

/-- How many of the times lie in the window of some length that opens at an instant. -/
def inWindow (length opens : Int) (times : List Int) : Nat :=
  times.countP fun time => opens ≤ time && time < opens + length

variable {length opens time : Int} {times : List Int}

theorem inWindow_append (first second : List Int) :
    inWindow length opens (first ++ second) =
      inWindow length opens first + inWindow length opens second :=
  List.countP_append

theorem inWindow_le_length : inWindow length opens times ≤ times.length := List.countP_le_length

/-- What lies outside of the window is not counted. -/
theorem inWindow_eq_zero (outside : ∀ time ∈ times, time < opens ∨ opens + length ≤ time) :
    inWindow length opens times = 0 := by
  rw [inWindow, List.countP_eq_zero]
  intro time member counted
  rw [Bool.and_eq_true, decide_eq_true_eq, decide_eq_true_eq] at counted
  have away := outside time member
  omega

/-- A window that counts something opens no later than that, and is not over then. -/
theorem exists_inWindow (some_ : inWindow length opens times ≠ 0) :
    ∃ time ∈ times, opens ≤ time ∧ time < opens + length := by
  obtain ⟨time, member, counted⟩ := List.countP_pos_iff.mp (Nat.pos_of_ne_zero some_)
  rw [Bool.and_eq_true, decide_eq_true_eq, decide_eq_true_eq] at counted
  exact ⟨time, member, counted⟩

/-- Times up to the begin of the current epoch, and the ones in it.  A window that is not over
when the epoch begins has only late times of earlier epochs. -/
structure Paced (length : Int) (late bound : Nat) (earlier current : List Int) (begins : Int) :
    Prop where
  earlier_le : ∀ opens, inWindow length opens earlier ≤ late + bound
  recent_le : ∀ opens, begins < opens + length → inWindow length opens earlier ≤ late
  current_le : ∀ opens, inWindow length opens current ≤ bound
  late_le : ∀ opens, begins < opens → inWindow length opens current ≤ late
  after : ∀ time ∈ current, begins ≤ time

namespace Paced

variable {late bound : Nat} {earlier current : List Int} {begins next : Int}

theorem start (begins : Int) : Paced length late bound [] [] begins :=
  ⟨fun _ => Nat.zero_le _, fun _ _ => Nat.zero_le _, fun _ => Nat.zero_le _,
    fun _ _ => Nat.zero_le _, nofun⟩

/-- Every window meets two epochs at most, the first of them late. -/
theorem inWindow_le (paced : Paced length late bound earlier current begins) (opens : Int) :
    inWindow length opens (earlier ++ current) ≤ late + bound := by
  rw [inWindow_append]
  by_cases none_ : inWindow length opens current = 0
  · rw [none_]
    exact paced.earlier_le opens
  · obtain ⟨time, member, _, below⟩ := exists_inWindow none_
    have here := paced.after time member
    have recent := paced.recent_le opens (by omega)
    have own := paced.current_le opens
    omega

/-- An epoch without times may begin later. -/
theorem rebase (paced : Paced length late bound earlier [] begins) (passes : begins ≤ next) :
    Paced length late bound earlier [] next where
  earlier_le := paced.earlier_le
  recent_le opens reaches := paced.recent_le opens (by omega)
  current_le _ := Nat.zero_le _
  late_le _ _ := Nat.zero_le _
  after := nofun

/-- One more time in the current epoch. -/
theorem snoc (paced : Paced length late bound earlier current begins) (after : begins ≤ time)
    (fits : ∀ opens, inWindow length opens (current ++ [time]) ≤ bound)
    (fitsLate : ∀ opens, begins < opens → inWindow length opens (current ++ [time]) ≤ late) :
    Paced length late bound earlier (current ++ [time]) begins where
  earlier_le := paced.earlier_le
  recent_le := paced.recent_le
  current_le := fits
  late_le := fitsLate
  after := by
    intro other member
    rcases List.mem_append.mp member with old | new
    · exact paced.after other old
    · rw [List.mem_singleton.mp new]
      exact after

/-- A new epoch begins when the current one is over and the ones before are out of reach. -/
theorem turn (paced : Paced length late bound earlier current begins)
    (ended : begins + length ≤ next) (apart : ∀ time ∈ earlier, time + length ≤ next) :
    Paced length late bound (earlier ++ current) [] next where
  earlier_le := paced.inWindow_le
  recent_le := by
    intro opens reaches
    rw [inWindow_append, inWindow_eq_zero fun time member => ?_, Nat.zero_add]
    · exact paced.late_le opens (by omega)
    · have far := apart time member
      omega
  current_le _ := Nat.zero_le _
  late_le _ _ := Nat.zero_le _
  after := nofun

end Paced

/-- A time before the window is not in it. -/
theorem inWindow_lt_length (member : time ∈ times) (before : time < opens) :
    inWindow length opens times < times.length := by
  rw [inWindow, List.countP_lt_length_iff]
  refine ⟨time, member, ?_⟩
  rw [Bool.and_eq_false_imp, decide_eq_true_eq]
  omega

/-- Few times fit any window. -/
theorem inWindow_snoc_of_few {bound : Nat} (few : times.length < bound) (opens : Int) :
    inWindow length opens (times ++ [time]) ≤ bound :=
  calc inWindow length opens (times ++ [time]) ≤ (times ++ [time]).length := inWindow_le_length
    _ = times.length + 1 := List.length_append
    _ ≤ bound := few

/-- A time that keeps its distance from the ones before is alone in its windows. -/
theorem inWindow_snoc_of_apart {bound : Nat} (one : 1 ≤ bound)
    (fits : ∀ opens, inWindow length opens times ≤ bound)
    (apart : ∀ other ∈ times, other + length ≤ time) (opens : Int) :
    inWindow length opens (times ++ [time]) ≤ bound := by
  rw [inWindow_append]
  by_cases none_ : inWindow length opens [time] = 0
  · rw [none_, Nat.add_zero]
    exact fits opens
  · obtain ⟨other, member, _, below⟩ := exists_inWindow none_
    rw [List.mem_singleton.mp member] at below
    rw [inWindow_eq_zero fun other earlier => ?_, Nat.zero_add]
    · exact Nat.le_trans inWindow_le_length one
    · have far := apart other earlier
      omega

end Parthenon.Library
