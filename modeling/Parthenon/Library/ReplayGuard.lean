import Mathlib.Data.Finset.Insert

namespace Parthenon.Library

/-! # Replay guards

A guard keeps the keys of the requests it accepted and refuses a request whose key
is there.  It is exact when each request is accepted once at most and is called a
replay only if it was accepted before: that is a matter of requests that share a
key with another one.
-/

inductive Verdict
  | accepted | replayed | refused
deriving DecidableEq, Repr

variable {ι : Type u} {κ : Type v}

/-- The requests and what was said to each, the newest first. -/
abbrev Verdicts (ι : Type u) := List (ι × Verdict)

namespace Verdicts

def Exact : Verdicts ι → Prop
  | [] => True
  | (id, verdict) :: earlier =>
      (verdict = .accepted → (id, Verdict.accepted) ∉ earlier) ∧
      (verdict = .replayed → (id, Verdict.accepted) ∈ earlier) ∧ Exact earlier

instance Exact.decidable [DecidableEq ι] : ∀ verdicts : Verdicts ι, Decidable verdicts.Exact
  | [] => inferInstanceAs (Decidable True)
  | (_, _) :: earlier =>
      have : Decidable (Exact earlier) := Exact.decidable earlier
      inferInstanceAs (Decidable (_ ∧ _ ∧ _))

variable [DecidableEq κ] (key : ι → κ)

/-- What a guard may say to a request, and its keys after. -/
inductive Step (keys : Finset κ) (id : ι) : Verdict → Finset κ → Prop
  | accept (new : key id ∉ keys) : Step keys id .accepted (insert (key id) keys)
  | replay (old : key id ∈ keys) : Step keys id .replayed keys
  | refuse : Step keys id .refused keys

/-- The keys are those of the accepted requests, each its own. -/
structure Guarded (keys : Finset κ) (verdicts : Verdicts ι) : Prop where
  holds : ∀ place, place ∈ keys ↔ ∃ id, (id, Verdict.accepted) ∈ verdicts ∧ key id = place
  own : ∀ id other, (id, Verdict.accepted) ∈ verdicts → (other, Verdict.accepted) ∈ verdicts →
    key id = key other → id = other

variable {key} {keys after : Finset κ} {verdicts : Verdicts ι} {id : ι} {verdict : Verdict}

omit [DecidableEq κ] in
theorem guarded_empty : Guarded key ∅ ([] : Verdicts ι) where
  holds place := by simp
  own id other listed := by cases listed

omit [DecidableEq κ] in
theorem Guarded.unlisted (guarded : Guarded key keys verdicts) (new : key id ∉ keys) :
    ∀ other, (other, Verdict.accepted) ∈ verdicts → key other ≠ key id := by
  intro other listed same
  exact new ((guarded.holds _).mpr ⟨other, listed, same⟩)

theorem Step.guarded (step : Step key keys id verdict after) (guarded : Guarded key keys verdicts) :
    Guarded key after ((id, verdict) :: verdicts) := by
  cases step with
  | accept new =>
      constructor
      · intro place
        rw [Finset.mem_insert, guarded.holds]
        constructor
        · rintro (rfl | ⟨other, listed, same⟩)
          · exact ⟨id, List.mem_cons_self, rfl⟩
          · exact ⟨other, List.mem_cons_of_mem _ listed, same⟩
        · rintro ⟨other, listed, same⟩
          rcases List.mem_cons.mp listed with here | earlier
          · obtain ⟨rfl, -⟩ := Prod.mk.inj here
            exact .inl same.symm
          · exact .inr ⟨other, earlier, same⟩
      · intro one other oneListed otherListed same
        rcases List.mem_cons.mp oneListed with oneHere | oneEarlier
        · obtain ⟨rfl, -⟩ := Prod.mk.inj oneHere
          rcases List.mem_cons.mp otherListed with otherHere | otherEarlier
          · exact (Prod.mk.inj otherHere).1.symm
          · exact absurd same.symm (guarded.unlisted new other otherEarlier)
        · rcases List.mem_cons.mp otherListed with otherHere | otherEarlier
          · obtain ⟨rfl, -⟩ := Prod.mk.inj otherHere
            exact absurd same (guarded.unlisted new one oneEarlier)
          · exact guarded.own one other oneEarlier otherEarlier same
  | replay old =>
      have kept : ∀ other, (other, Verdict.accepted) ∈ (id, Verdict.replayed) :: verdicts ↔
          (other, Verdict.accepted) ∈ verdicts := fun other => by simp
      exact ⟨fun place => by simp only [kept]; exact guarded.holds place,
        fun one other => by simp only [kept]; exact guarded.own one other⟩
  | refuse =>
      have kept : ∀ other, (other, Verdict.accepted) ∈ (id, Verdict.refused) :: verdicts ↔
          (other, Verdict.accepted) ∈ verdicts := fun other => by simp
      exact ⟨fun place => by simp only [kept]; exact guarded.holds place,
        fun one other => by simp only [kept]; exact guarded.own one other⟩

/-- One step is exact unless it calls a request a replay of another one. -/
theorem Step.exact_iff (step : Step key keys id verdict after) (guarded : Guarded key keys verdicts)
    (exactly : verdicts.Exact) :
    Exact ((id, verdict) :: verdicts) ↔ (verdict = .replayed →
      ∀ other, (other, Verdict.accepted) ∈ verdicts → key other = key id → other = id) := by
  cases step with
  | accept new =>
      refine iff_of_true ⟨fun _ listed => ?_, nofun, exactly⟩ nofun
      exact guarded.unlisted new id listed rfl
  | replay old =>
      constructor
      · rintro ⟨-, known, -⟩ - other listed same
        exact guarded.own other id listed (known rfl) same
      · intro only
        obtain ⟨other, listed, same⟩ := (guarded.holds _).mp old
        refine ⟨nofun, fun _ => ?_, exactly⟩
        rw [← only rfl other listed same]
        exact listed
  | refuse => exact iff_of_true ⟨nofun, nofun, exactly⟩ nofun

end Verdicts

end Parthenon.Library
