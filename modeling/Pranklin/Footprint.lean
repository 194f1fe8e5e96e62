import Pranklin.Effect

namespace Pranklin.Footprint
open Effect

structure Noted (σ τ : Type) where
  state : σ
  touched : List τ

abbrev Noting (σ τ ε α : Type) := Eff (Noted σ τ) ε α

variable {σ τ ε α β : Type} {touches : σ → List τ} {noting other : Noting σ τ ε α} {plain simple : Eff σ ε α} {allowed : τ → Prop}

def touching (touches : σ → List τ) (plain : Eff σ ε α) : Noting σ τ ε α := fun noted =>
  ((exec plain noted.state).1,⟨(exec plain noted.state).2,noted.touched ++ touches noted.state⟩)

def plainly (plain : Eff σ ε α) : Noting σ τ ε α := touching (fun _ => []) plain

def footprint (noting : Noting σ τ ε α) (s : σ) : List τ := (exec noting ⟨s,[]⟩).2.touched

-- But for the notes the two programs are the same, and the notes do not depend on the ones
-- that were there.
def Notes (noting : Noting σ τ ε α) (plain : Eff σ ε α) : Prop := ∀ noted,
  exec noting noted = ((exec plain noted.state).1,⟨(exec plain noted.state).2,noted.touched ++ footprint noting noted.state⟩)

theorem exec_touching (touches : σ → List τ) (plain : Eff σ ε α) (noted : Noted σ τ) :
    exec (touching touches plain) noted =
      ((exec plain noted.state).1,⟨(exec plain noted.state).2,noted.touched ++ touches noted.state⟩) := rfl

theorem exec_plainly (plain : Eff σ ε α) (noted : Noted σ τ) :
    exec (plainly plain) noted = ((exec plain noted.state).1,⟨(exec plain noted.state).2,noted.touched⟩) := by
  rw [plainly,exec_touching,List.append_nil]

@[simp] theorem footprint_touching (touches : σ → List τ) (plain : Eff σ ε α) (s : σ) :
    footprint (touching touches plain) s = touches s := rfl

@[simp] theorem footprint_plainly (plain : Eff σ ε α) (s : σ) : footprint (plainly plain : Noting σ τ ε α) s = [] := rfl

@[simp] theorem footprint_pure (value : α) (s : σ) : footprint (pure value : Noting σ τ ε α) s = [] := rfl

@[simp] theorem footprint_throw (error : ε) (s : σ) : footprint (throw error : Noting σ τ ε α) s = [] := rfl

namespace Notes

theorem touching (touches : σ → List τ) (plain : Eff σ ε α) : Notes (touching touches plain) plain := fun _ => rfl

theorem plainly (plain : Eff σ ε α) : Notes (plainly plain : Noting σ τ ε α) plain := fun _ => rfl

theorem pure (value : α) : Notes (Pure.pure value : Noting σ τ ε α) (Pure.pure value) := fun noted => by
  rw [exec_pure,exec_pure,footprint_pure,List.append_nil]

theorem throw (error : ε) : Notes (MonadExcept.throw error : Noting σ τ ε α) (MonadExcept.throw error) := fun noted => by
  rw [exec_throw,exec_throw,footprint_throw,List.append_nil]

theorem footprint_bind {next : α → Noting σ τ ε β} {after : α → Eff σ ε β} (first : Notes noting plain)
    (rest : ∀ value, Notes (next value) (after value)) (s : σ) :
    footprint (noting >>= next) s = footprint noting s ++
      match exec plain s with
      | (.ok value,t) => footprint (next value) t
      | (.error _,_) => [] := by
  conv_lhs => rw [footprint,exec_bind,first]
  cases exec plain s with
  | mk result t =>
    cases result with
    | error error => simp
    | ok value => simp [rest value _]

theorem bind {next : α → Noting σ τ ε β} {after : α → Eff σ ε β} (first : Notes noting plain)
    (rest : ∀ value, Notes (next value) (after value)) : Notes (noting >>= next) (plain >>= after) := fun noted => by
  rw [footprint_bind first rest,exec_bind,exec_bind,first]
  cases exec plain noted.state with
  | mk result t =>
    cases result with
    | error error => simp
    | ok value => simp [rest value _]

theorem ite {condition : Prop} [Decidable condition] (yes : Notes noting plain) (no : Notes other simple) :
    Notes (if condition then noting else other) (if condition then plain else simple) := by
  split
  · exact yes
  · exact no

theorem congr (notes : Notes noting plain) (same : ∀ s, exec plain s = exec simple s) : Notes noting simple := fun noted => by
  rw [notes noted,same]

end Notes

def Within (allowed : τ → Prop) (noting : Noting σ τ ε α) : Prop := ∀ noted,
  (∀ touch ∈ noted.touched, allowed touch) → ∀ touch ∈ (exec noting noted).2.touched, allowed touch

namespace Within

theorem touching (all : ∀ s, ∀ touch ∈ touches s, allowed touch) (plain : Eff σ ε α) :
    Within allowed (touching touches plain) := by
  intro noted before touch inside
  rcases List.mem_append.mp inside with inside | inside
  · exact before touch inside
  · exact all noted.state touch inside

theorem plainly (plain : Eff σ ε α) : Within allowed (plainly plain : Noting σ τ ε α) :=
  touching (fun _ _ inside => by cases inside) plain

theorem throw (error : ε) : Within allowed (MonadExcept.throw error : Noting σ τ ε α) := fun _ before => before

theorem bind {next : α → Noting σ τ ε β} (here : Within allowed noting) (later : ∀ value, Within allowed (next value)) :
    Within allowed (noting >>= next) := by
  intro noted before
  have first := here noted before
  rw [exec_bind]
  cases ran : exec noting noted with
  | mk result middle =>
    rw [ran] at first
    cases result with
    | error error => exact first
    | ok value => exact later value middle first

theorem ite {condition : Prop} [Decidable condition] (yes : Within allowed noting) (no : Within allowed other) :
    Within allowed (if condition then noting else other) := by
  split
  · exact yes
  · exact no

theorem footprint (within : Within allowed noting) (s : σ) : ∀ touch ∈ footprint noting s, allowed touch :=
  within ⟨s,[]⟩ fun _ inside => by cases inside

end Within

end Pranklin.Footprint
