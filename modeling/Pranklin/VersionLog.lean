import Mathlib.Tactic.Common

namespace Pranklin.VersionLog
variable {α : Type} {read left right : Nat → Option α}

-- A record is kept per version; a read at a version sees the newest record not above it.
def newest (read : Nat → Option α) : Nat → Option α
  | 0 => read 0
  | version + 1 =>
    match read (version + 1) with
    | some value => some value
    | none => newest read version

def NewestAt (read : Nat → Option α) (bound stamp : Nat) : Prop :=
  stamp ≤ bound ∧ (read stamp).isSome ∧ ∀ later, stamp < later → later ≤ bound → read later = none

theorem newest_of_gap (below : stamp ≤ bound)
    (gap : ∀ later, stamp < later → later ≤ bound → read later = none) :
    newest read bound = newest read stamp := by
  induction bound with
  | zero => rw [Nat.le_zero.mp below]
  | succ bound ih =>
    rcases Nat.lt_or_eq_of_le below with strict | rfl
    · rw [newest,gap (bound + 1) strict (Nat.le_refl _)]
      exact ih (Nat.le_of_lt_succ strict) fun later above under => gap later above (by omega)
    · rfl

theorem newest_self (present : read stamp = some value) : newest read stamp = some value := by
  cases stamp with
  | zero => exact present
  | succ stamp => rw [newest,present]

theorem newest_of_newestAt (found : NewestAt read bound stamp) : newest read bound = read stamp := by
  obtain ⟨below,present,gap⟩ := found
  obtain ⟨value,present⟩ := Option.isSome_iff_exists.mp present
  rw [newest_of_gap below gap,newest_self present,present]

theorem newest_of_absent (absent : ∀ stamp ≤ bound, read stamp = none) : newest read bound = none := by
  rw [newest_of_gap (Nat.zero_le bound) fun later _ under => absent later under]
  exact absent 0 (Nat.zero_le bound)

theorem newestAt_or_absent (read : Nat → Option α) (bound : Nat) :
    (∃ stamp, NewestAt read bound stamp) ∨ ∀ stamp ≤ bound, read stamp = none := by
  induction bound with
  | zero =>
    cases present : read 0 with
    | none => exact .inr fun stamp under => by rw [Nat.le_zero.mp under,present]
    | some value => exact .inl ⟨0,Nat.le_refl 0,by simp [present],fun later above under => by omega⟩
  | succ bound ih =>
    cases present : read (bound + 1) with
    | some value =>
      exact .inl ⟨bound + 1,Nat.le_refl _,by simp [present],fun later above under => by omega⟩
    | none =>
      rcases ih with ⟨stamp,below,found,gap⟩ | absent
      · refine .inl ⟨stamp,Nat.le_succ_of_le below,found,fun later above under => ?_⟩
        rcases Nat.lt_or_eq_of_le under with strict | rfl
        · exact gap later above (Nat.le_of_lt_succ strict)
        · exact present
      · refine .inr fun stamp under => ?_
        rcases Nat.lt_or_eq_of_le under with strict | rfl
        · exact absent stamp (Nat.le_of_lt_succ strict)
        · exact present

theorem newest_congr (same : ∀ stamp ≤ bound, left stamp = right stamp) :
    newest left bound = newest right bound := by
  induction bound with
  | zero => exact same 0 (Nat.le_refl 0)
  | succ bound ih =>
    rw [newest,newest,same _ (Nat.le_refl _),ih fun stamp under => same stamp (Nat.le_succ_of_le under)]

theorem newestAt_congr (same : ∀ stamp ≤ bound, left stamp = right stamp) (found : NewestAt left bound stamp) :
    NewestAt right bound stamp := by
  obtain ⟨below,present,gap⟩ := found
  exact ⟨below,by rw [← same stamp below]; exact present,fun later above under => by
    rw [← same later under]; exact gap later above under⟩

theorem newest_eq_some :
    newest read bound = some value ↔ ∃ stamp ≤ bound, read stamp = some value ∧
      ∀ later, stamp < later → later ≤ bound → read later = none := by
  constructor
  · intro found
    rcases newestAt_or_absent read bound with ⟨stamp,newestAt⟩ | absent
    · rw [newest_of_newestAt newestAt] at found
      exact ⟨stamp,newestAt.1,found,newestAt.2.2⟩
    · rw [newest_of_absent absent] at found
      cases found
  · rintro ⟨stamp,below,found,gap⟩
    rw [newest_of_newestAt ⟨below,by rw [found]; rfl,gap⟩,found]

theorem newest_forget {forget : Nat → Bool} (kept : ∀ stamp, NewestAt read bound stamp → forget stamp = false) :
    newest (fun stamp => if forget stamp then none else read stamp) bound = newest read bound := by
  rcases newestAt_or_absent read bound with ⟨stamp,found⟩ | absent
  · have keeps := kept stamp found
    have later : NewestAt (fun stamp => if forget stamp then none else read stamp) bound stamp := by
      obtain ⟨below,present,gap⟩ := found
      refine ⟨below,by simpa [keeps] using present,fun later above under => ?_⟩
      simp [gap later above under]
    rw [newest_of_newestAt later,newest_of_newestAt found]
    simp [keeps]
  · rw [newest_of_absent absent,newest_of_absent fun stamp under => by simp [absent stamp under]]

end Pranklin.VersionLog
