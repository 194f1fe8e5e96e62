import Pranklin.OpenInterest

namespace Pranklin
open Words Effect

namespace SignedTrades
variable {e : Engine} {trader : Address} {marketId size price bps : Nat} {isBuy : Bool} {position updated : Option Position}

def target (position : Option Position) (isBuy : Bool) (size : Nat) : Int := signedSize position + signed isBuy size

def Fits (position : Option Position) (isBuy : Bool) (size : Nat) : Prop := (target position isBuy size).natAbs < 2 ^ 64

def Overflows (position : Option Position) (size price : Nat) (isBuy : Bool) (bps : Nat) : Prop :=
  ∃ held, position = some held ∧ held.isLong = isBuy ∧
    (2 ^ 128 ≤ held.size * held.entryPrice + size * price ∨ 2 ^ 128 ≤ size * price * bps ∨
      2 ^ 128 ≤ held.margin + size * price * bps / basisPoints)

-- The trade as signed addition, in what `update_position` leaves and in what it refuses.
structure Exact (e : Engine) (trader : Address) (marketId size price : Nat) (isBuy : Bool) (bps : Nat) : Prop where
  adds : (exec (PositionManager.updatePosition trader marketId size price isBuy bps) e).1 = .ok () →
    let after := (exec (PositionManager.updatePosition trader marketId size price isBuy bps) e).2
    let goal := target (e.state.getPosition trader marketId) isBuy size
    signedSize (after.state.getPosition trader marketId) = goal ∧
      (after.state.getPosition trader marketId = none ↔ goal = 0) ∧
      ∀ left, after.state.getPosition trader marketId = some left → 0 < left.size
  refuses : ¬Fits (e.state.getPosition trader marketId) isBuy size →
    (exec (PositionManager.updatePosition trader marketId size price isBuy bps) e).1 = .error .overflow ∧
      (exec (PositionManager.updatePosition trader marketId size price isBuy bps) e).2.state.getPosition trader marketId =
        e.state.getPosition trader marketId

section Increase
variable {held : Position}

theorem increasePosition_refused (more : 0 < size) (long : 2 ^ 128 ≤ held.size * held.entryPrice + size * price ∨
      2 ^ 128 ≤ size * price * bps ∨ 2 ^ 128 ≤ held.margin + size * price * bps / basisPoints) :
    PositionManager.increasePosition held size price bps ≠ .ok result := by
  intro ran
  rcases PositionManager.increasePosition_cases ran with ⟨_,short,fits,room,_⟩ | ⟨_,nothing⟩ <;> omega

theorem increasePosition_done (more : 0 < size) (words : held.size < 2 ^ 64 ∧ size < 2 ^ 64)
    (short : ¬(2 ^ 128 ≤ held.size * held.entryPrice + size * price ∨ 2 ^ 128 ≤ size * price * bps ∨
      2 ^ 128 ≤ held.margin + size * price * bps / basisPoints)) :
    ∃ result, PositionManager.increasePosition held size price bps = .ok result := by
  obtain ⟨summed,scaled,room⟩ := not_or.mp short |>.imp_right not_or.mp
  rw [Nat.not_le] at summed scaled room
  have total : held.size + size < 2 ^ 128 := by omega
  have first : checkedMul 128 held.size held.entryPrice = some (held.size * held.entryPrice) :=
    checkedMul_eq_some.mpr ⟨by omega,rfl⟩
  have second : checkedMul 128 size price = some (size * price) := checkedMul_eq_some.mpr ⟨by omega,rfl⟩
  have third := checkedAdd_eq_some.mpr ⟨summed,rfl⟩
  have fourth := checkedAdd_eq_some.mpr ⟨total,rfl⟩
  have fifth := checkedMul_eq_some.mpr ⟨scaled,rfl⟩
  have last := checkedAdd_eq_some.mpr ⟨room,rfl⟩
  rw [PositionManager.increasePosition,orOverflow_eq_ok.mpr first,orOverflow_eq_ok.mpr second]
  simp only [bind,Except.bind,orOverflow_eq_ok.mpr third,orOverflow_eq_ok.mpr fourth,orOverflow_eq_ok.mpr fifth,
    orOverflow_eq_ok.mpr last]
  rw [if_pos (by omega)]
  exact ⟨_,rfl⟩

end Increase

theorem held_of_target (more : 0 < size) (none_ : target position isBuy size = 0) :
    ∃ held, position = some held ∧ held.isLong = (!isBuy) ∧ held.size = size := by
  cases position with
  | none => cases isBuy <;> simp [target,signedSize,signed] at none_ <;> omega
  | some held =>
    refine ⟨held,rfl,?_⟩
    cases side : held.isLong <;> cases isBuy <;>
      simp [target,signedSize,signed,side] at none_ ⊢ <;> omega

-- Only an increase can leave the words.
theorem same_side_of_not_fits (words : ∀ held, position = some held → held.size < 2 ^ 64) (word : size < 2 ^ 64)
    (wide : ¬Fits position isBuy size) : ∃ held, position = some held ∧ held.isLong = isBuy := by
  unfold Fits target at wide
  cases position with
  | none => cases isBuy <;> simp [signedSize,signed] at wide <;> omega
  | some held =>
    have small := words held rfl
    refine ⟨held,rfl,?_⟩
    cases side : held.isLong <;> cases isBuy <;> simp [signedSize,signed,side] at wide ⊢ <;> omega

theorem traded_same_side {held : Position} (same : held.isLong = isBuy) :
    PositionManager.traded (some held) size price isBuy bps =
      (PositionManager.increasePosition held size price bps).map some := by
  rw [PositionManager.traded]
  dsimp only
  rw [if_pos same]
  cases PositionManager.increasePosition held size price bps <;> rfl

theorem not_overflows_of_traded (more : 0 < size) (traded : PositionManager.traded position size price isBuy bps = .ok updated) :
    ¬Overflows position size price isBuy bps := by
  rintro ⟨held,rfl,same,long⟩
  rw [traded_same_side same] at traded
  cases increased : PositionManager.increasePosition held size price bps with
  | error error => rw [increased] at traded; cases traded
  | ok result => exact increasePosition_refused more long increased

theorem fits_or_overflows_of_refused (more : 0 < size) (words : ∀ held, position = some held → held.size < 2 ^ 64)
    (word : size < 2 ^ 64) (refused : PositionManager.traded position size price isBuy bps = .error error) :
    Fits position isBuy size ∨ Overflows position size price isBuy bps := by
  by_cases fits : Fits position isBuy size
  · exact .inl fits
  obtain ⟨held,rfl,same⟩ := same_side_of_not_fits words word fits
  refine .inr ⟨held,rfl,same,?_⟩
  by_contra short
  obtain ⟨result,increased⟩ := increasePosition_done more ⟨words held rfl,word⟩ short
  rw [traded_same_side same,increased] at refused
  cases refused

theorem target_of_refused (more : 0 < size) (refused : PositionManager.traded position size price isBuy bps = .error error) :
    target position isBuy size ≠ 0 := by
  intro aims
  obtain ⟨held,rfl,opposite,equal⟩ := held_of_target more aims
  rw [PositionManager.traded] at refused
  dsimp only at refused
  rw [if_neg (by cases isBuy <;> simp [opposite]),if_pos (Nat.le_of_eq equal),if_neg (by omega)] at refused
  cases refused

theorem traded_open (more : 0 < size) (words : ∀ held, position = some held → held.size < 2 ^ 64)
    (word : size < 2 ^ 64) (fits : Fits position isBuy size)
    (traded : PositionManager.traded position size price isBuy bps = .ok updated) :
    ∀ left, updated = some left → 0 < left.size := by
  rintro left rfl
  have summed := OpenInterest.traded_signed traded fits
  rcases PositionManager.traded_cases traded with
    ⟨_,_,⟨⟩,_,sized⟩ | ⟨before,_,rfl,same,⟨⟩,side,_⟩ | ⟨before,_,_,_,smaller,⟨⟩,_,sized⟩ | ⟨_,_,_,_,⟨⟩⟩ |
      ⟨before,_,_,_,larger,⟨⟩,_,sized⟩
  · omega
  · cases isBuy <;> simp [signedSize,signed,same,side] at summed <;> omega
  · omega
  · omega

theorem exact_of_refused (refused : PositionManager.traded (e.state.getPosition trader marketId) size price isBuy bps =
    .error .overflow) : Exact e trader marketId size price isBuy bps := by
  have ran : exec (PositionManager.updatePosition trader marketId size price isBuy bps) e = (.error .overflow,e) := by
    rw [PositionManager.updatePosition,exec_bind,exec_tries,refused]
  constructor
  · intro done
    rw [ran] at done
    cases done
  · intro _
    rw [ran]
    exact ⟨rfl,rfl⟩

theorem exact_of_traded (more : 0 < size) (words : ∀ held, e.state.getPosition trader marketId = some held → held.size < 2 ^ 64)
    (word : size < 2 ^ 64)
    (traded : PositionManager.traded (e.state.getPosition trader marketId) size price isBuy bps = .ok updated) :
    Exact e trader marketId size price isBuy bps ↔ Fits (e.state.getPosition trader marketId) isBuy size ∧
      (target (e.state.getPosition trader marketId) isBuy size = 0 → e.state.committed (.position trader marketId) = none) := by
  obtain failed | ⟨made,same,ran⟩ := PositionManager.updatePosition_exec trader marketId size price isBuy bps e
  · have refused : exec (PositionManager.updatePosition trader marketId size price isBuy bps) e =
        (.ok (),(exec (PositionManager.updatePosition trader marketId size price isBuy bps) e).2) := by
      rw [PositionManager.updatePosition,exec_bind,exec_tries,traded]
      cases updated <;> rfl
    rw [failed] at refused
    cases refused
  rw [traded] at same
  cases same
  obtain ⟨made,same,reads,_⟩ := OpenInterest.updatePosition_uncovers ran
  rw [traded] at same
  cases same
  have read := reads trader marketId
  rw [if_pos ⟨rfl,rfl⟩] at read
  constructor
  · intro exact_
    refine ⟨?_,fun aims => ?_⟩
    · by_contra wide
      have refused := (exact_.refuses wide).1
      rw [ran] at refused
      cases refused
    · have gone := (exact_.adds (by rw [ran])).2.1.mpr aims
      rw [ran] at gone
      dsimp only at gone
      rw [read] at gone
      exact (Option.or_eq_none_iff.mp gone).2
  · rintro ⟨fits,drops⟩
    refine ⟨fun _ => ?_,fun wide => absurd fits wide⟩
    rw [ran]
    dsimp only
    rw [read]
    have summed : signedSize updated = target (e.state.getPosition trader marketId) isBuy size :=
      OpenInterest.traded_signed traded fits
    cases updated with
    | none =>
      rw [Option.none_or,drops summed.symm]
      exact ⟨summed,iff_of_true rfl summed.symm,fun _ never => by cases never⟩
    | some left =>
      have held := traded_open more words word fits traded left rfl
      refine ⟨summed,?_,fun _ same => by cases same; exact held⟩
      rw [← summed]
      refine iff_of_false (by simp) ?_
      cases side : left.isLong <;> simp [signedSize,signed,side] <;> omega

-- The words hold the result, or the increase fails on its way; and a position that is closed has
-- nothing committed beneath it.
theorem exact_iff (more : 0 < size) (words : ∀ held, e.state.getPosition trader marketId = some held → held.size < 2 ^ 64)
    (word : size < 2 ^ 64) :
    Exact e trader marketId size price isBuy bps ↔
      (Fits (e.state.getPosition trader marketId) isBuy size ∨
        Overflows (e.state.getPosition trader marketId) size price isBuy bps) ∧
      (target (e.state.getPosition trader marketId) isBuy size = 0 → e.state.committed (.position trader marketId) = none) := by
  cases traded : PositionManager.traded (e.state.getPosition trader marketId) size price isBuy bps with
  | error error =>
    obtain rfl := OnlyOverflow.traded _ _ _ _ _ error traded
    exact iff_of_true (exact_of_refused traded)
      ⟨fits_or_overflows_of_refused more words word traded,fun aims => absurd aims (target_of_refused more traded)⟩
  | ok updated =>
    rw [exact_of_traded more words word traded,or_iff_left (not_overflows_of_traded more traded)]

def brimful : Engine := Engine.new (Bench.state.setPosition Bench.alice 0 ⟨2 ^ 64 - 1,1,true,2 ^ 61,0⟩)

theorem trade_wraps : ¬Exact brimful Bench.alice 0 1 1 true 1000 := by
  have facts : (exec (PositionManager.updatePosition Bench.alice 0 1 1 true 1000) brimful).1 = .ok () ∧
      (exec (PositionManager.updatePosition Bench.alice 0 1 1 true 1000) brimful).2.state.getPosition Bench.alice 0 =
        some ⟨0,1,true,2 ^ 61 + 0,0⟩ := by decide +kernel
  intro adds
  have kept := (adds.adds facts.1).2.2 _ facts.2
  cases kept

theorem exact_iff_on_bench : Exact brimful Bench.alice 0 3 90 false 1000 ↔
    (Fits (brimful.state.getPosition Bench.alice 0) false 3 ∨
      Overflows (brimful.state.getPosition Bench.alice 0) 3 90 false 1000) ∧
    (target (brimful.state.getPosition Bench.alice 0) false 3 = 0 →
      brimful.state.committed (.position Bench.alice 0) = none) :=
  have found : brimful.state.getPosition Bench.alice 0 = some ⟨2 ^ 64 - 1,1,true,2 ^ 61,0⟩ := by decide +kernel
  exact_iff (by decide) (fun held stored => by rw [found] at stored; cases stored; decide) (by decide)

end SignedTrades
end Pranklin
