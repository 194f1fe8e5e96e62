import Mathlib.Tactic.Common

namespace Pranklin.Effect

-- A computation that may fail and keeps what it has written when it does.
abbrev Eff (σ ε α : Type) := ExceptT ε (StateM σ) α

variable {σ ε α β : Type} {m : Eff σ ε α} {next : α → Eff σ ε β} {read : σ → α} {write : σ → σ}

def exec (m : Eff σ ε α) (s : σ) : Except ε α × σ := m.run s

theorem exec_of_result (first : (exec m s).1 = result) : exec m s = (result,(exec m s).2) := Prod.ext first rfl

def reads (read : σ → α) : Eff σ ε α := do return read (← get)

def writes (write : σ → σ) : Eff σ ε Unit := modify write

def tries (read : σ → Except ε α) : Eff σ ε α := do
  match read (← get) with
  | .ok value => pure value
  | .error error => throw error

-- A step that either refuses, and then writes nothing, or succeeds.
def attempts (step : σ → Except ε (α × σ)) : Eff σ ε α := do
  match step (← get) with
  | .ok (value,next) => do set next; pure value
  | .error error => throw error

def orThrow (value : Option α) (error : ε) : Eff σ ε α :=
  match value with
  | some value => pure value
  | none => throw error

def onlyIf (condition : Prop) [Decidable condition] (m : Eff σ ε Unit) : Eff σ ε Unit :=
  if condition then m else pure ()

@[simp] theorem exec_pure (value : α) (s : σ) : exec (pure value : Eff σ ε α) s = (.ok value,s) := rfl

@[simp] theorem exec_throw (error : ε) (s : σ) : exec (throw error : Eff σ ε α) s = (.error error,s) := rfl

@[simp] theorem exec_reads (read : σ → α) (s : σ) : exec (reads read : Eff σ ε α) s = (.ok (read s),s) := rfl

@[simp] theorem exec_writes (write : σ → σ) (s : σ) : exec (writes write : Eff σ ε Unit) s = (.ok (),write s) := rfl

theorem exec_tries (read : σ → Except ε α) (s : σ) : exec (tries read) s = (read s,s) := by
  change exec (match read s with | .ok value => pure value | .error error => throw error) s = _
  cases read s <;> rfl

theorem exec_attempts (step : σ → Except ε (α × σ)) (s : σ) :
    exec (attempts step) s =
      match step s with
      | .ok (value,next) => (.ok value,next)
      | .error error => (.error error,s) := by
  change exec (match step s with
    | .ok (value,next) => do set next; pure value
    | .error error => throw error) s = _
  cases step s with
  | error error => rfl
  | ok pair => rfl

@[simp] theorem exec_orThrow_some (value : α) (error : ε) (s : σ) :
    exec (orThrow (some value) error) s = (.ok value,s) := rfl

@[simp] theorem exec_orThrow_none (error : ε) (s : σ) :
    exec (orThrow none error : Eff σ ε α) s = (.error error,s) := rfl

@[simp] theorem exec_bind (m : Eff σ ε α) (next : α → Eff σ ε β) (s : σ) :
    exec (m >>= next) s =
      match exec m s with
      | (.ok value,t) => exec (next value) t
      | (.error error,t) => (.error error,t) := by
  change (ExceptT.bind m next) s = _
  simp only [exec,ExceptT.bind,ExceptT.mk,ExceptT.run]
  change (StateT.bind m (ExceptT.bindCont next)) s = _
  simp only [StateT.bind]
  cases m s with
  | mk result t => cases result <;> rfl

theorem exec_reads_bind (read : σ → α) (next : α → Eff σ ε β) (s : σ) :
    exec (reads read >>= next) s = exec (next (read s)) s := by
  rw [exec_bind,exec_reads]

theorem exec_writes_bind (write : σ → σ) (next : Unit → Eff σ ε β) (s : σ) :
    exec (writes write >>= next) s = exec (next ()) (write s) := by
  rw [exec_bind,exec_writes]

theorem exec_orThrow_some_bind (value : α) (error : ε) (next : α → Eff σ ε β) (s : σ) :
    exec (orThrow (some value) error >>= next) s = exec (next value) s := by
  rw [exec_bind,exec_orThrow_some]

theorem exec_ok_bind {m : Eff σ ε α} (ran : exec m s = (.ok value,t)) (next : α → Eff σ ε β) :
    exec (m >>= next) s = exec (next value) t := by
  rw [exec_bind,ran]

theorem exec_error_bind {m : Eff σ ε α} (failed : exec m s = (.error error,t)) (next : α → Eff σ ε β) :
    exec (m >>= next) s = (.error error,t) := by
  rw [exec_bind,failed]

theorem exec_bind_ok {m : Eff σ ε α} {next : α → Eff σ ε β} (ran : exec (m >>= next) s = (.ok value,t)) :
    ∃ first middle, exec m s = (.ok first,middle) ∧ exec (next first) middle = (.ok value,t) := by
  rw [exec_bind] at ran
  cases started : exec m s with
  | mk result middle =>
    rw [started] at ran
    cases result with
    | error error => cases ran
    | ok first => exact ⟨first,middle,rfl,ran⟩

theorem exec_tries_ok {read : σ → Except ε α} {next : α → Eff σ ε β} (ran : exec (tries read >>= next) s = (.ok value,t)) :
    ∃ found, read s = .ok found ∧ exec (next found) s = (.ok value,t) := by
  rw [exec_bind,exec_tries] at ran
  cases found : read s with
  | error error => rw [found] at ran; cases ran
  | ok found' => exact ⟨found',rfl,by rwa [found] at ran⟩

theorem exec_orThrow_ok {option : Option α} {error : ε} {next : α → Eff σ ε β}
    (ran : exec (orThrow option error >>= next) s = (.ok value,t)) :
    ∃ found, option = some found ∧ exec (next found) s = (.ok value,t) := by
  cases option with
  | none => cases ran
  | some found => exact ⟨found,rfl,ran⟩

theorem exec_bind_pure_state (m : Eff σ ε α) (f : α → β) (s : σ) :
    (exec (m >>= fun value => pure (f value)) s).2 = (exec m s).2 := by
  rw [exec_bind]
  cases exec m s with
  | mk result t => cases result <;> rfl

theorem exec_bind_pure_result (m : Eff σ ε α) (f : α → β) (s : σ) :
    (exec (m >>= fun value => pure (f value)) s).1 = (exec m s).1.map f := by
  rw [exec_bind]
  cases exec m s with
  | mk result t => cases result <;> rfl

theorem exec_bind_pure (m : Eff σ ε α) (f : α → β) (s : σ) :
    exec (m >>= fun value => pure (f value)) s = ((exec m s).1.map f,(exec m s).2) :=
  Prod.ext (exec_bind_pure_result m f s) (exec_bind_pure_state m f s)

-- Whatever its outcome, the computation leaves a state related to the one it found.
def Guarantees (relation : σ → σ → Prop) (m : Eff σ ε α) : Prop := ∀ s, relation s (exec m s).2

section Guarantee
variable {relation : σ → σ → Prop}

theorem Guarantees.pure (refl : ∀ s, relation s s) (value : α) :
    Guarantees relation (Pure.pure value : Eff σ ε α) := refl

theorem Guarantees.throw (refl : ∀ s, relation s s) (error : ε) :
    Guarantees relation (MonadExcept.throw error : Eff σ ε α) := refl

theorem Guarantees.reads (refl : ∀ s, relation s s) (read : σ → α) :
    Guarantees relation (Effect.reads read : Eff σ ε α) := refl

theorem Guarantees.writes (related : ∀ s, relation s (write s)) :
    Guarantees relation (Effect.writes write : Eff σ ε Unit) := related

theorem Guarantees.orThrow (refl : ∀ s, relation s s) (value : Option α) (error : ε) :
    Guarantees relation (Effect.orThrow value error : Eff σ ε α) := by
  cases value with
  | some value => exact .pure refl value
  | none => exact .throw refl error

theorem Guarantees.tries (refl : ∀ s, relation s s) (read : σ → Except ε α) :
    Guarantees relation (Effect.tries read : Eff σ ε α) := by
  intro s
  rw [exec_tries]
  exact refl s

theorem Guarantees.attempts {step : σ → Except ε (α × σ)} (refl : ∀ s, relation s s)
    (related : ∀ s value t, step s = .ok (value,t) → relation s t) :
    Guarantees relation (Effect.attempts step) := by
  intro s
  rw [exec_attempts]
  cases ran : step s with
  | error error => exact refl s
  | ok pair => exact related s pair.1 pair.2 ran

theorem Guarantees.onlyIf {condition : Prop} [Decidable condition] {m : Eff σ ε Unit} (refl : ∀ s, relation s s)
    (related : Guarantees relation m) : Guarantees relation (Effect.onlyIf condition m) := by
  unfold Effect.onlyIf
  split
  · exact related
  · exact .pure refl ()

theorem Guarantees.mono {weaker : σ → σ → Prop} (implies : ∀ s t, relation s t → weaker s t)
    (first : Guarantees relation m) : Guarantees weaker m := fun s => implies _ _ (first s)

theorem Guarantees.bind (trans : ∀ a b c, relation a b → relation b c → relation a c)
    (first : Guarantees relation m) (rest : ∀ value, Guarantees relation (next value)) :
    Guarantees relation (m >>= next) := by
  intro s
  have related := first s
  rw [exec_bind]
  cases ran : exec m s with
  | mk result t =>
    rw [ran] at related
    cases result with
    | error error => exact related
    | ok value => exact trans _ _ _ related (rest value t)

end Guarantee

def Lockstep (relation : σ → σ → Prop) (m : Eff σ ε α) : Prop :=
  ∀ s t, relation s t → (exec m s).1 = (exec m t).1 ∧ relation (exec m s).2 (exec m t).2

section TwoRuns
variable {relation : σ → σ → Prop}

theorem Lockstep.pure (value : α) : Lockstep relation (Pure.pure value : Eff σ ε α) :=
  fun _ _ related => ⟨rfl,related⟩

theorem Lockstep.throw (error : ε) : Lockstep relation (MonadExcept.throw error : Eff σ ε α) :=
  fun _ _ related => ⟨rfl,related⟩

theorem Lockstep.reads (same : ∀ s t, relation s t → read s = read t) :
    Lockstep relation (Effect.reads read : Eff σ ε α) :=
  fun s t related => ⟨congrArg Except.ok (same s t related),related⟩

theorem Lockstep.writes (kept : ∀ s t, relation s t → relation (write s) (write t)) :
    Lockstep relation (Effect.writes write : Eff σ ε Unit) :=
  fun s t related => ⟨rfl,kept s t related⟩

theorem Lockstep.orThrow (value : Option α) (error : ε) :
    Lockstep relation (Effect.orThrow value error : Eff σ ε α) := by
  cases value with
  | some value => exact .pure value
  | none => exact .throw error

theorem Lockstep.tries {read : σ → Except ε α} (same : ∀ s t, relation s t → read s = read t) :
    Lockstep relation (Effect.tries read : Eff σ ε α) := by
  intro s t related
  rw [exec_tries,exec_tries]
  exact ⟨same s t related,related⟩

theorem Lockstep.attempts {step : σ → Except ε (α × σ)}
    (both : ∀ s t, relation s t → (∃ error, step s = .error error ∧ step t = .error error) ∨
      ∃ value s' t', step s = .ok (value,s') ∧ step t = .ok (value,t') ∧ relation s' t') :
    Lockstep relation (Effect.attempts step) := by
  intro s t related
  rw [exec_attempts,exec_attempts]
  rcases both s t related with ⟨error,left,right⟩ | ⟨value,s',t',left,right,kept⟩
  · rw [left,right]; exact ⟨rfl,related⟩
  · rw [left,right]; exact ⟨rfl,kept⟩

theorem Lockstep.onlyIf {condition : Prop} [Decidable condition] {m : Eff σ ε Unit}
    (both : Lockstep relation m) : Lockstep relation (Effect.onlyIf condition m) := by
  unfold Effect.onlyIf
  split
  · exact both
  · exact .pure ()

theorem Lockstep.bind (first : Lockstep relation m) (rest : ∀ value, Lockstep relation (next value)) :
    Lockstep relation (m >>= next) := by
  intro s t related
  obtain ⟨same,kept⟩ := first s t related
  simp only [exec_bind]
  cases left : exec m s with
  | mk result s' =>
    cases right : exec m t with
    | mk result' t' =>
      rw [left,right] at same kept
      obtain rfl : result = result' := same
      cases result with
      | error error => exact ⟨rfl,kept⟩
      | ok value => exact rest value s' t' kept

end TwoRuns
end Pranklin.Effect
