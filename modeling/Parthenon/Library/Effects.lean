namespace Parthenon.Library

/-! # What actions leave unchanged

An action keeps the state it reached when it faults.  It respects a relation
when the relation holds between the states before and after, however it ends.
-/

/-! ## Chains of checks

A check succeeds or fails with an error, and the first failing one of a
sequence decides.  A sequence succeeds exactly when each of its checks does.
-/

section Checks

variable {ε : Type u} {α β : Type v}

/-- Fail with the error unless the condition holds. -/
def ensure (condition : Bool) (error : ε) : Except ε Unit :=
  if condition then .ok () else .error error

/-- Check the members of a list from the first one on. -/
def checkEach (check : α → Except ε Unit) : List α → Except ε Unit
  | [] => .ok ()
  | value :: rest => do
      check value
      checkEach check rest

theorem ensure_ok {condition : Bool} {error : ε} :
    ensure condition error = .ok () ↔ condition = true := by
  cases condition with
  | false => simp [ensure]
  | true => simp [ensure]

theorem bind_ok {first : Except ε α} {next : α → Except ε β} {result : β} :
    (first >>= next) = .ok result ↔ ∃ value, first = .ok value ∧ next value = .ok result := by
  cases first with
  | error reason => simp [bind, Except.bind]
  | ok value => simp [bind, Except.bind]

theorem then_ok {first second : Except ε Unit} :
    (do first; second) = .ok () ↔ first = .ok () ∧ second = .ok () := by
  rw [bind_ok]
  exact ⟨fun ⟨_, passed, later⟩ => ⟨passed, later⟩, fun ⟨passed, later⟩ => ⟨(), passed, later⟩⟩

theorem mapError_ok {δ : Type u} {check : Except ε α} {rename : ε → δ} {value : α} :
    check.mapError rename = .ok value ↔ check = .ok value := by
  cases check with
  | error reason =>
      change Except.error (rename reason) = Except.ok value ↔ _
      simp
  | ok done =>
      change Except.ok done = Except.ok value ↔ _
      simp

theorem checkEach_ok {check : α → Except ε Unit} {values : List α} :
    checkEach check values = .ok () ↔ ∀ value ∈ values, check value = .ok () := by
  induction values with
  | nil => simp [checkEach]
  | cons value rest ih => rw [checkEach, then_ok, ih, List.forall_mem_cons]

end Checks

/-! ## Actions -/

variable {ε σ α β : Type}

/-- The state an action ends in. -/
def finalState : EStateM.Result ε σ α → σ
  | .ok _ state => state
  | .error _ state => state

/-- What an action returns, if it does not fault. -/
def returnValue : EStateM.Result ε σ α → Option α
  | .ok value _ => some value
  | .error _ _ => none

theorem eq_ok_of_returnValue {outcome : EStateM.Result ε σ α} {value : α}
    (known : returnValue outcome = some value) : outcome = .ok value (finalState outcome) := by
  cases outcome with
  | ok returned state =>
      cases known
      rfl
  | error fault state => cases known

def Respects (related : σ → σ → Prop) (action : EStateM ε σ α) : Prop :=
  ∀ state, related state (finalState (action state))

section

variable {related : σ → σ → Prop}

theorem respects_pure (reflexive : ∀ state, related state state) (value : α) :
    Respects related (pure value : EStateM ε σ α) := fun state => reflexive state

theorem respects_throw (reflexive : ∀ state, related state state) (fault : ε) :
    Respects related (throw fault : EStateM ε σ α) := fun state => reflexive state

theorem respects_get (reflexive : ∀ state, related state state) :
    Respects related (get : EStateM ε σ σ) := fun state => reflexive state

theorem respects_modify {change : σ → σ} (changes : ∀ state, related state (change state)) :
    Respects related (modify change : EStateM ε σ PUnit) := changes

theorem respects_bind
    (transitive : ∀ first second third, related first second → related second third →
      related first third)
    {action : EStateM ε σ α} {next : α → EStateM ε σ β}
    (here : Respects related action) (later : ∀ value, Respects related (next value)) :
    Respects related (action >>= next) := by
  intro state
  have first := here state
  change related state (finalState (EStateM.bind action next state))
  cases ran : action state with
  | error fault after =>
      simp only [EStateM.bind, ran, finalState] at first ⊢
      exact first
  | ok value after =>
      simp only [EStateM.bind, ran, finalState] at first ⊢
      exact transitive _ _ _ first (later value after)

end

/-- What an action returns, from any state, has the property. -/
def Yields (property : α → Prop) (action : EStateM ε σ α) : Prop :=
  ∀ state value, returnValue (action state) = some value → property value

theorem yields_pure {property : α → Prop} {value : α} (holds : property value) :
    Yields property (pure value : EStateM ε σ α) := by
  intro state other returned
  cases returned
  exact holds

theorem yields_bind {property : β → Prop} {action : EStateM ε σ α} {next : α → EStateM ε σ β}
    (later : ∀ value, Yields property (next value)) : Yields property (action >>= next) := by
  intro state value returned
  change returnValue (EStateM.bind action next state) = some value at returned
  cases ran : action state with
  | error fault after =>
      simp only [EStateM.bind, ran, returnValue] at returned
      cases returned
  | ok first after =>
      simp only [EStateM.bind, ran] at returned
      exact later first after value returned

/-- The relation holds between the states before and after an action that does not fault. -/
def Ensures (related : σ → σ → Prop) (action : EStateM ε σ α) : Prop :=
  ∀ state value after, action state = .ok value after → related state after

section

variable {related : σ → σ → Prop}

theorem ensures_pure (reflexive : ∀ state, related state state) (value : α) :
    Ensures related (pure value : EStateM ε σ α) := by
  intro state other after done
  cases done
  exact reflexive state

theorem ensures_throw (fault : ε) : Ensures related (throw fault : EStateM ε σ α) := by
  intro state value after done
  cases done

theorem ensures_modify {change : σ → σ} (changes : ∀ state, related state (change state)) :
    Ensures related (modify change : EStateM ε σ PUnit) := by
  intro state value after done
  cases done
  exact changes state

theorem bind_ok_iff {action : EStateM ε σ α} {next : α → EStateM ε σ β} {state after : σ}
    {value : β} :
    (action >>= next) state = .ok value after ↔
      ∃ first reached, action state = .ok first reached ∧ next first reached = .ok value after := by
  change EStateM.bind action next state = .ok value after ↔ _
  unfold EStateM.bind
  cases action state with
  | error fault reached => exact ⟨fun done => (by cases done), fun ⟨_, _, none_, _⟩ => (by cases none_)⟩
  | ok first reached =>
      constructor
      · intro done
        exact ⟨first, reached, rfl, done⟩
      · intro both
        obtain ⟨_, _, same, done⟩ := both
        cases same
        exact done

/-- What faults is the first action, or the second where the first one ends. -/
theorem bind_error_iff {action : EStateM ε σ α} {next : α → EStateM ε σ β} {state after : σ}
    {fault : ε} :
    (action >>= next) state = .error fault after ↔
      action state = .error fault after ∨
        ∃ first reached, action state = .ok first reached ∧
          next first reached = .error fault after := by
  change EStateM.bind action next state = .error fault after ↔ _
  unfold EStateM.bind
  cases action state with
  | error other reached => simp
  | ok first reached =>
      constructor
      · intro faults
        exact .inr ⟨first, reached, rfl, faults⟩
      · intro either
        rcases either with none_ | ⟨_, _, same, faults⟩
        · cases none_
        · cases same
          exact faults

/-- The action never faults in the given way. -/
def Avoids (fault : ε) (action : EStateM ε σ α) : Prop :=
  ∀ state after, action state ≠ .error fault after

section

variable {fault : ε}

theorem avoids_pure (value : α) : Avoids fault (pure value : EStateM ε σ α) := by
  intro state after faults
  cases faults

theorem avoids_get : Avoids fault (get : EStateM ε σ σ) := by
  intro state after faults
  cases faults

theorem avoids_modify (change : σ → σ) : Avoids fault (modify change : EStateM ε σ PUnit) := by
  intro state after faults
  cases faults

theorem avoids_throw {other : ε} (different : other ≠ fault) :
    Avoids fault (throw other : EStateM ε σ α) := by
  intro state after faults
  cases faults
  exact different rfl

theorem avoids_bind {action : EStateM ε σ α} {next : α → EStateM ε σ β}
    (here : Avoids fault action) (later : ∀ value, Avoids fault (next value)) :
    Avoids fault (action >>= next) := by
  intro state after faults
  rcases bind_error_iff.mp faults with first | second
  · exact here state after first
  · obtain ⟨value, reached, _, rest⟩ := second
    exact later value reached after rest

theorem bind_faults_first {action : EStateM ε σ α} {next : α → EStateM ε σ β} {state after : σ}
    (later : ∀ value, Avoids fault (next value)) :
    (action >>= next) state = .error fault after ↔ action state = .error fault after := by
  rw [bind_error_iff]
  constructor
  · intro faults
    rcases faults with first | ⟨value, reached, _, rest⟩
    · exact first
    · exact absurd rest (later value reached after)
  · exact .inl

theorem bind_faults_later {action : EStateM ε σ α} {next : α → EStateM ε σ β} {state after : σ}
    (here : Avoids fault action) :
    (action >>= next) state = .error fault after ↔
      ∃ first reached, action state = .ok first reached ∧
        next first reached = .error fault after := by
  rw [bind_error_iff]
  constructor
  · intro faults
    exact faults.resolve_left (here state after)
  · exact .inr

theorem avoids_getBind {next : σ → EStateM ε σ β} (later : ∀ state, Avoids fault (next state)) :
    Avoids fault (get >>= next) :=
  avoids_bind avoids_get later

end

theorem ensures_bind
    (transitive : ∀ first second third, related first second → related second third →
      related first third)
    {action : EStateM ε σ α} {next : α → EStateM ε σ β}
    (here : Ensures related action) (later : ∀ value, Ensures related (next value)) :
    Ensures related (action >>= next) := by
  intro state value after done
  obtain ⟨first, reached, ran, rest⟩ := bind_ok_iff.mp done
  exact transitive _ _ _ (here state first reached ran) (later first reached value after rest)

/-- The continuation may use that it starts in the state that was read. -/
theorem ensures_getBind {next : σ → EStateM ε σ β}
    (later : ∀ state value after, next state state = .ok value after → related state after) :
    Ensures related (get >>= next) := by
  intro state value after done
  exact later state value after done

end

/-! ## What actions do not look at -/

section Commuting

/-- A result with its state changed. -/
def mapState (change : σ → σ) : EStateM.Result ε σ α → EStateM.Result ε σ α
  | .ok value state => .ok value (change state)
  | .error fault state => .error fault (change state)

/-- The action does the same before the change and after it. -/
def Commutes (change : σ → σ) (action : EStateM ε σ α) : Prop :=
  ∀ state, action (change state) = mapState change (action state)

variable {change : σ → σ}

theorem commutes_pure (value : α) : Commutes change (pure value : EStateM ε σ α) := fun _ => rfl

theorem commutes_throw (fault : ε) : Commutes change (throw fault : EStateM ε σ α) := fun _ => rfl

theorem commutes_modify {other : σ → σ} (apart : ∀ state, other (change state) = change (other state)) :
    Commutes change (modify other : EStateM ε σ PUnit) := by
  intro state
  change EStateM.Result.ok PUnit.unit (other (change state)) = .ok PUnit.unit (change (other state))
  rw [apart]

theorem commutes_bind {action : EStateM ε σ α} {next : α → EStateM ε σ β}
    (here : Commutes change action) (later : ∀ value, Commutes change (next value)) :
    Commutes change (action >>= next) := by
  intro state
  change EStateM.bind action next (change state) = mapState change (EStateM.bind action next state)
  rw [EStateM.bind, EStateM.bind, here state]
  cases action state with
  | error fault after => rfl
  | ok value after => exact later value after

/-- What follows may look at the state where the change does not show. -/
theorem commutes_getBind {next : σ → EStateM ε σ β} (blind : ∀ state, next (change state) = next state)
    (later : ∀ state, Commutes change (next state)) : Commutes change (get >>= next) := by
  intro state
  change next (change state) (change state) = mapState change (next state state)
  rw [blind, later state state]

end Commuting

end Parthenon.Library
