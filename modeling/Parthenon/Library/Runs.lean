import Mathlib.Order.Basic

namespace Parthenon.Library

/-! # Runs

A system is a step relation over states and inputs; a run is the list of inputs
it took from its start.  What every step preserves holds at the end of every run.
-/

variable {σ : Type u} {ι : Type v}

inductive Run (step : σ → ι → σ → Prop) (start : σ) : List ι → σ → Prop
  | start : Run step start [] start
  | step (before : Run step start inputs state) (next : step state input after) :
      Run step start (inputs ++ [input]) after

namespace Run

variable {step : σ → ι → σ → Prop} {start : σ}

theorem invariant {motive : σ → Prop} (initially : motive start)
    (preserved : ∀ state input after, motive state → step state input after → motive after)
    {inputs : List ι} {state : σ} (run : Run step start inputs state) : motive state := by
  induction run with
  | start => exact initially
  | step _ next ih => exact preserved _ _ _ ih next

theorem mono {wider : σ → ι → σ → Prop}
    (wide : ∀ state input after, step state input after → wider state input after)
    {inputs : List ι} {state : σ} (run : Run step start inputs state) :
    Run wider start inputs state := by
  induction run with
  | start => exact .start
  | step _ next ih => exact ih.step (wide _ _ _ next)

end Run

/-- Each input meets its condition in the state it is taken in. -/
def Obeys (holds : σ → ι → Prop) (next : σ → ι → σ) : σ → List ι → Prop
  | _, [] => True
  | state, input :: rest => holds state input ∧ Obeys holds next (next state input) rest

instance Obeys.decidable {holds : σ → ι → Prop} {next : σ → ι → σ}
    [∀ state input, Decidable (holds state input)] :
    ∀ state inputs, Decidable (Obeys holds next state inputs)
  | _, [] => inferInstanceAs (Decidable True)
  | state, input :: rest =>
      have : Decidable (Obeys holds next (next state input) rest) := Obeys.decidable _ rest
      inferInstanceAs (Decidable (_ ∧ _))

/-- Inputs that meet their conditions extend a run. -/
theorem Run.extend {holds : σ → ι → Prop} {next : σ → ι → σ} {start state : σ} {inputs rest : List ι}
    (run : Run (fun state input after => holds state input ∧ after = next state input) start inputs
      state) (obeys : Obeys holds next state rest) :
    Run (fun state input after => holds state input ∧ after = next state input) start
      (inputs ++ rest) (rest.foldl next state) := by
  induction rest generalizing inputs state with
  | nil => simpa using run
  | cons input rest ih =>
      obtain ⟨here, later⟩ := obeys
      have longer := ih (run.step ⟨here, rfl⟩) later
      rwa [List.append_assoc] at longer

theorem Obeys.of_forall {holds : σ → ι → Prop} {next : σ → ι → σ}
    (all : ∀ state input, holds state input) (state : σ) (inputs : List ι) :
    Obeys holds next state inputs := by
  induction inputs generalizing state with
  | nil => trivial
  | cons input rest ih => exact ⟨all state input, ih (next state input)⟩

/-- What every step that meets its condition keeps holds at the end of a run of them. -/
theorem Obeys.invariant {holds : σ → ι → Prop} {next : σ → ι → σ} {motive : σ → Prop}
    (kept : ∀ state input, motive state → holds state input → motive (next state input))
    {state : σ} {inputs : List ι} (obeys : Obeys holds next state inputs)
    (initially : motive state) : motive (inputs.foldl next state) := by
  induction inputs generalizing state with
  | nil => exact initially
  | cons input rest ih =>
      obtain ⟨here, later⟩ := obeys
      exact ih later (kept state input initially here)

/-- Where an allowed step keeps a property exactly when its condition is met, a run of
allowed steps keeps it in all its states exactly when every step meets its condition. -/
theorem obeys_iff_prefixes_within {allowed holds : σ → ι → Prop} {next : σ → ι → σ}
    (invariant : σ → Prop) {good : σ → Prop}
    (kept : ∀ state input, invariant state → allowed state input → invariant (next state input))
    (exactly : ∀ state input, invariant state → allowed state input → good state →
      (good (next state input) ↔ holds state input))
    {state : σ} (initially : invariant state) (started : good state) {inputs : List ι}
    (within : Obeys allowed next state inputs) :
    Obeys holds next state inputs ↔ ∀ count, good ((inputs.take count).foldl next state) := by
  induction inputs generalizing state with
  | nil =>
      refine ⟨fun _ count => ?_, fun _ => trivial⟩
      rw [List.take_nil]
      exact started
  | cons input rest ih =>
      obtain ⟨fits, within⟩ := within
      constructor
      · rintro ⟨here, later⟩ count
        cases count with
        | zero => exact started
        | succ count =>
            have continued := (exactly state input initially fits started).mpr here
            exact (ih (kept state input initially fits) continued within).mp later count
      · intro all
        have continued : good (next state input) := all 1
        exact ⟨(exactly state input initially fits started).mp continued,
          (ih (kept state input initially fits) continued within).mpr fun count => all (count + 1)⟩

/-- Where a step keeps a property exactly when its condition is met, a run keeps it
in all its states exactly when every step meets its condition. -/
theorem obeys_iff_prefixes {holds : σ → ι → Prop} {next : σ → ι → σ} (invariant : σ → Prop)
    {good : σ → Prop} (kept : ∀ state input, invariant state → invariant (next state input))
    (exactly : ∀ state input, invariant state → good state →
      (good (next state input) ↔ holds state input))
    {state : σ} (initially : invariant state) (started : good state) (inputs : List ι) :
    Obeys holds next state inputs ↔ ∀ count, good ((inputs.take count).foldl next state) :=
  obeys_iff_prefixes_within invariant
    (fun state input held _ => kept state input held)
    (fun state input held _ => exactly state input held) initially started
    (Obeys.of_forall (fun _ _ => trivial) state inputs)

/-- Where no allowed step lowers a measure, and a step keeps it exactly when its condition is
met, a run of allowed steps ends where the measure began exactly when every step meets its
condition. -/
theorem obeys_iff_kept {α : Type w} [PartialOrder α] {allowed holds : σ → ι → Prop}
    {next : σ → ι → σ} (measure : σ → α)
    (grows : ∀ state input, allowed state input → measure state ≤ measure (next state input))
    (exactly : ∀ state input, allowed state input →
      (measure (next state input) = measure state ↔ holds state input))
    {state : σ} {inputs : List ι} (within : Obeys allowed next state inputs) :
    Obeys holds next state inputs ↔ measure (inputs.foldl next state) = measure state := by
  suffices both : measure state ≤ measure (inputs.foldl next state) ∧
      (Obeys holds next state inputs ↔ measure (inputs.foldl next state) = measure state) from
    both.2
  induction inputs generalizing state with
  | nil => exact ⟨le_refl _, fun _ => rfl, fun _ => trivial⟩
  | cons input rest ih =>
      obtain ⟨fits, within⟩ := within
      obtain ⟨later, rests⟩ := ih within
      have here := grows state input fits
      refine ⟨here.trans later, ?_⟩
      constructor
      · rintro ⟨kept, obeys⟩
        exact (rests.mp obeys).trans ((exactly state input fits).mpr kept)
      · intro same
        -- between two equal ends nothing can have grown
        have kept : measure (next state input) = measure state :=
          le_antisymm (later.trans (le_of_eq same)) here
        exact ⟨(exactly state input fits).mp kept, rests.mpr (same.trans kept.symm)⟩

/-- Two conditions that agree under an invariant are met by the same runs, when the
second one keeps the invariant. -/
theorem obeys_congr {first second : σ → ι → Prop} {next : σ → ι → σ} (invariant : σ → Prop)
    (kept : ∀ state input, invariant state → second state input → invariant (next state input))
    (exactly : ∀ state input, invariant state → (first state input ↔ second state input))
    {state : σ} (initially : invariant state) (inputs : List ι) :
    Obeys first next state inputs ↔ Obeys second next state inputs := by
  induction inputs generalizing state with
  | nil => exact Iff.rfl
  | cons input rest ih =>
      rw [Obeys, Obeys, exactly state input initially]
      exact and_congr_right fun here => ih (kept state input initially here)

/-- What every turn of a counting loop keeps holds when the loop ends. -/
theorem foldl_range_invariant (step : σ → Nat → σ) (start : σ) (count : Nat)
    (motive : Nat → σ → Prop) (initially : motive 0 start)
    (keeps : ∀ turn state, turn < count → motive turn state → motive (turn + 1) (step state turn)) :
    motive count ((List.range count).foldl step start) := by
  induction count with
  | zero => exact initially
  | succ count ih =>
      rw [List.range_succ, List.foldl_append]
      exact keeps count _ (Nat.lt_succ_self count)
        (ih fun turn state below => keeps turn state (Nat.lt_succ_of_lt below))

/-- A call that is known to return has a result and a state. -/
theorem returned {outcome : Option (ι × σ)} {result : ι} (known : outcome.map Prod.fst = some result)
    (default : σ) : outcome = some (result, (outcome.map Prod.snd).getD default) := by
  obtain ⟨pair, isPair, rfl⟩ := Option.map_eq_some_iff.mp known
  rw [isPair]
  rfl

/-- A condition on each step of a sequence of steps that may fail, in the state
the step is taken in. -/
def EachInTurn (step : σ → ι → Option σ) (holds : σ → ι → Prop) : σ → List ι → Prop
  | _, [] => True
  | state, input :: rest =>
      holds state input ∧ ∀ after, step state input = some after → EachInTurn step holds after rest

instance EachInTurn.decidable {step : σ → ι → Option σ} {holds : σ → ι → Prop}
    [∀ state input, Decidable (holds state input)] :
    ∀ state inputs, Decidable (EachInTurn step holds state inputs)
  | _, [] => inferInstanceAs (Decidable True)
  | state, input :: rest =>
      have (after : σ) : Decidable (EachInTurn step holds after rest) := EachInTurn.decidable after rest
      inferInstanceAs (Decidable (_ ∧ ∀ after ∈ step state input, EachInTurn step holds after rest))

/-- Inputs that meet their conditions extend a run of steps that may fail. -/
theorem EachInTurn.extend {step : σ → ι → Option σ} {holds : σ → ι → Prop}
    {start state after : σ} {inputs rest : List ι} (each : EachInTurn step holds state rest)
    (run : Run (fun state input after => holds state input ∧ step state input = some after) start
      inputs state) (done : rest.foldlM step state = some after) :
    Run (fun state input after => holds state input ∧ step state input = some after) start
      (inputs ++ rest) after := by
  induction rest generalizing inputs state with
  | nil =>
      cases done
      simpa using run
  | cons input rest ih =>
      obtain ⟨here, later⟩ := each
      rw [List.foldlM_cons] at done
      obtain ⟨next, taken, done⟩ := Option.bind_eq_some_iff.mp done
      have longer := ih (later next taken) (run.step ⟨here, taken⟩) done
      rwa [List.append_assoc] at longer

theorem foldlM_exists {step : σ → ι → Option σ}
    (always : ∀ state input, ∃ next, step state input = some next) (state : σ) (inputs : List ι) :
    ∃ last, inputs.foldlM step state = some last := by
  induction inputs generalizing state with
  | nil => exact ⟨state, rfl⟩
  | cons input rest ih =>
      obtain ⟨next, taken⟩ := always state input
      obtain ⟨last, done⟩ := ih next
      refine ⟨last, ?_⟩
      rw [List.foldlM_cons, taken]
      exact done

theorem foldlM_invariant {step : σ → ι → Option σ} {motive : σ → Prop}
    (preserved : ∀ state input after, motive state → step state input = some after → motive after)
    {state after : σ} {inputs : List ι} (initially : motive state)
    (done : inputs.foldlM step state = some after) : motive after := by
  induction inputs generalizing state with
  | nil =>
      cases done
      exact initially
  | cons input rest ih =>
      rw [List.foldlM_cons] at done
      obtain ⟨next, taken, done⟩ := Option.bind_eq_some_iff.mp done
      exact ih (preserved state input next initially taken) done

/-- An invariant that implies the condition gives it at each step. -/
theorem EachInTurn.of_invariant {step : σ → ι → Option σ} {holds : σ → ι → Prop} {motive : σ → Prop}
    (implies : ∀ state input, motive state → holds state input)
    (preserved : ∀ state input after, motive state → step state input = some after → motive after)
    {state : σ} (initially : motive state) (inputs : List ι) : EachInTurn step holds state inputs := by
  induction inputs generalizing state with
  | nil => exact trivial
  | cons input rest ih =>
      exact ⟨implies state input initially,
        fun after taken => ih (preserved state input after initially taken)⟩

theorem EachInTurn.invariant {step : σ → ι → Option σ} {holds : σ → ι → Prop} {motive : σ → Prop}
    (preserved : ∀ state input after, motive state → holds state input →
      step state input = some after → motive after)
    {state after : σ} {inputs : List ι} (each : EachInTurn step holds state inputs)
    (initially : motive state) (done : inputs.foldlM step state = some after) : motive after := by
  induction inputs generalizing state with
  | nil =>
      cases done
      exact initially
  | cons input rest ih =>
      obtain ⟨here, later⟩ := each
      rw [List.foldlM_cons] at done
      obtain ⟨next, taken, done⟩ := Option.bind_eq_some_iff.mp done
      exact ih (later next taken) (preserved state input next initially here taken) done

/-- What holds of every input joins the condition on each step. -/
theorem EachInTurn.with_forall {step : σ → ι → Option σ} {holds : σ → ι → Prop} {also : ι → Prop}
    {state : σ} {inputs : List ι} (each : EachInTurn step holds state inputs)
    (all : ∀ input ∈ inputs, also input) :
    EachInTurn step (fun state input => also input ∧ holds state input) state inputs := by
  induction inputs generalizing state with
  | nil => exact trivial
  | cons input rest ih =>
      obtain ⟨here, later⟩ := each
      exact ⟨⟨all input List.mem_cons_self, here⟩, fun after taken =>
        ih (later after taken) fun other member => all other (List.mem_cons_of_mem input member)⟩

/-- A sequence whose every step meets the condition completes, and what it did is
what the abstract steps do. -/
theorem EachInTurn.simulates {step : σ → ι → Option σ} {holds : σ → ι → Prop} {τ : Type w}
    {abstractStep : τ → ι → τ} {related : σ → τ → Prop}
    (follows : ∀ state abstract input, related state abstract → holds state input →
      ∃ after, step state input = some after ∧ related after (abstractStep abstract input))
    {state : σ} {abstract : τ} {inputs : List ι} (each : EachInTurn step holds state inputs)
    (initially : related state abstract) :
    ∃ after, inputs.foldlM step state = some after ∧
      related after (inputs.foldl abstractStep abstract) := by
  induction inputs generalizing state abstract with
  | nil => exact ⟨state, rfl, initially⟩
  | cons input rest ih =>
      obtain ⟨here, later⟩ := each
      obtain ⟨next, taken, related⟩ := follows state abstract input initially here
      obtain ⟨after, done, finally_⟩ := ih (later next taken) related
      refine ⟨after, ?_, finally_⟩
      rw [List.foldlM_cons, taken]
      exact done

end Parthenon.Library
