import Mathlib.Data.List.Induction
import Mathlib.Tactic.Common

namespace Pranklin.Fronts
variable {α : Type} {l : List α} {shown holds : List α → Prop} {ok : List α → α → Prop}

theorem earlier {front : List α} {a : α} (part : front ++ [a] <+: l) : front <+: l :=
  (List.prefix_append front [a]).trans part

theorem forall_step_nil {P : List α → α → Prop} : ∀ front a, front ++ [a] <+: [] → P front a := by
  intro front a part
  simp at part

theorem forall_step_cons {P : List α → α → Prop} (first : α) (l : List α) :
    (∀ front a, front ++ [a] <+: first :: l → P front a) ↔
      P [] first ∧ ∀ front a, front ++ [a] <+: l → P (first :: front) a := by
  constructor
  · intro all
    exact ⟨all [] first (List.prefix_append [first] l),fun front a part => all _ a (List.cons_prefix_cons.mpr ⟨rfl,part⟩)⟩
  · intro ⟨now,later⟩ front a part
    cases front with
    | nil =>
      obtain ⟨rfl,_⟩ := List.cons_prefix_cons.mp part
      exact now
    | cons head front =>
      obtain ⟨rfl,rest⟩ := List.cons_prefix_cons.mp part
      exact later front a rest

-- An invariant that an allowed step keeps holds after every front of a run of allowed steps.
theorem every_front (start : holds []) (keeps : ∀ front a, front ++ [a] <+: l → holds front → ok front a → holds (front ++ [a]))
    (allowed : ∀ front a, front ++ [a] <+: l → ok front a) : ∀ front, front <+: l → holds front := by
  intro front
  induction front using List.reverseRecOn with
  | nil => exact fun _ => start
  | append_singleton front a ih => exact fun part => keeps front a part (ih (earlier part)) (allowed front a part)

-- Where a step that is not allowed shows at once, what is shown of every front tells the runs
-- of allowed steps from the others.
theorem every_front_iff (start : holds []) (sound : ∀ front, front <+: l → holds front → shown front)
    (keeps : ∀ front a, front ++ [a] <+: l → holds front → ok front a → holds (front ++ [a]))
    (breaks : ∀ front a, front ++ [a] <+: l → holds front → shown (front ++ [a]) → ok front a) :
    (∀ front, front <+: l → shown front) ↔ ∀ front a, front ++ [a] <+: l → ok front a := by
  constructor
  · intro all
    have held : ∀ front, front <+: l → holds front := by
      intro front
      induction front using List.reverseRecOn with
      | nil => exact fun _ => start
      | append_singleton front a ih =>
        intro part
        have before := ih (earlier part)
        exact keeps front a part before (breaks front a part before (all _ part))
    exact fun front a part => breaks front a part (held front (earlier part)) (all _ part)
  · exact fun allowed front part => sound front part (every_front start keeps allowed front part)

theorem exists_split_cons {P : List α → α → List α → Prop} (first : α) (l : List α) :
    (∃ front a back, first :: l = front ++ a :: back ∧ P front a back) ↔
      P [] first l ∨ ∃ front a back, l = front ++ a :: back ∧ P (first :: front) a back := by
  constructor
  · rintro ⟨front,a,back,split,holds⟩
    cases front with
    | nil =>
      cases split
      exact .inl holds
    | cons head front =>
      cases split
      exact .inr ⟨front,a,back,rfl,holds⟩
  · rintro (holds | ⟨front,a,back,rfl,holds⟩)
    · exact ⟨[],first,l,rfl,holds⟩
    · exact ⟨first :: front,a,back,rfl,holds⟩

section Since
variable {σ ι : Type} {step : σ → ι → σ} {on : σ → Prop} {starts ends : σ → ι → Prop}

def Lasts (step : σ → ι → σ) (ends : σ → ι → Prop) (state : σ) (inputs : List ι) : Prop :=
  ∀ front input, front ++ [input] <+: inputs → ¬ends (front.foldl step state) input

theorem lasts_cons (state : σ) (input : ι) (inputs : List ι) :
    Lasts step ends state (input :: inputs) ↔ ¬ends state input ∧ Lasts step ends (step state input) inputs :=
  forall_step_cons input inputs

-- What some inputs start and others end is on when one has started it, or it was on from the
-- first, and none has ended it since.
theorem since_iff (moves : ∀ state input, on (step state input) ↔ starts state input ∨ (on state ∧ ¬ends state input))
    (state : σ) (inputs : List ι) :
    on (inputs.foldl step state) ↔
      (∃ front input back, inputs = front ++ input :: back ∧ starts (front.foldl step state) input ∧
        Lasts step ends (step (front.foldl step state) input) back) ∨
      (on state ∧ Lasts step ends state inputs) := by
  induction inputs generalizing state with
  | nil => simp [Lasts]
  | cons input inputs ih =>
    rw [List.foldl_cons,ih,moves,exists_split_cons,lasts_cons]
    constructor
    · rintro (later | ⟨now | ⟨before,stays⟩,rest⟩)
      · exact .inl (.inr later)
      · exact .inl (.inl ⟨now,rest⟩)
      · exact .inr ⟨before,stays,rest⟩
    · rintro ((⟨now,rest⟩ | later) | ⟨before,stays,rest⟩)
      · exact .inr ⟨.inl now,rest⟩
      · exact .inl later
      · exact .inr ⟨.inr ⟨before,stays⟩,rest⟩

end Since

-- A step that is not idle lowers a rank, so before long one is idle.
theorem exists_idle {σ ι : Type} {step : σ → ι → σ} {idle : σ → ι → Prop} (rank : σ → Nat) (state : σ) (inputs : List ι)
    (lowers : ∀ front input, front ++ [input] <+: inputs → ¬idle (front.foldl step state) input →
      rank (step (front.foldl step state) input) < rank (front.foldl step state))
    (long : rank state < inputs.length) :
    ∃ front input back, inputs = front ++ input :: back ∧ idle (front.foldl step state) input := by
  induction inputs generalizing state with
  | nil => cases long
  | cons input inputs ih =>
    by_cases still : idle state input
    · exact ⟨[],input,inputs,rfl,still⟩
    · have lower := lowers [] input (List.prefix_append [input] inputs) still
      obtain ⟨front,later,back,rfl,still⟩ := ih (step state input)
        (fun front a part => lowers (input :: front) a (List.cons_prefix_cons.mpr ⟨rfl,part⟩)) (by
          simp only [List.length_cons,List.foldl_nil] at long lower
          omega)
      exact ⟨input :: front,later,back,rfl,still⟩

end Pranklin.Fronts
