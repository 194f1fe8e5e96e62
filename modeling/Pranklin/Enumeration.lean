import Pranklin.Overlay
import Pranklin.PositionIndex

namespace Pranklin
open Storage

namespace StateManager
variable {s t : StateManager} {marketId : Nat}

def Enumerated (s : StateManager) (marketId : Nat) : Prop :=
  (s.getAllPositionsInMarket marketId).Nodup ∧ ∀ address position,
    (address,position) ∈ s.getAllPositionsInMarket marketId ↔
      s.getPosition address marketId = some position ∧ 0 < position.size

def Covered (s : StateManager) : Prop := ∀ address marketId,
  openPosition (s.committed (.position address marketId)) → address ∈ (s.committed (.positionIndex marketId)).getD []

theorem Tracked.mem_addresses (tracked : s.Tracked) (address : Address) :
    address ∈ s.getPositionAddresses marketId ↔ address ∈ (s.get (.positionIndex marketId)).getD [] := by
  unfold getPositionAddresses
  cases found : s.positionIndex marketId with
  | some index => rw [tracked.mirrored marketId index found]; rfl
  | none => exact ((s.hashOrder.perm s.moment _).mem_iff).trans List.mem_dedup

theorem Tracked.addresses_nodup (tracked : s.Tracked) : (s.getPositionAddresses marketId).Nodup := by
  unfold getPositionAddresses
  cases found : s.positionIndex marketId with
  | some index => exact tracked.sets marketId index found
  | none => exact ((s.hashOrder.perm s.moment _).nodup_iff).mpr (List.nodup_dedup _)

theorem mem_getAllPositions {address : Address} {position : Position} :
    (address,position) ∈ s.getAllPositionsInMarket marketId ↔ address ∈ s.getPositionAddresses marketId ∧
      s.getPosition address marketId = some position ∧ 0 < position.size := by
  unfold getAllPositionsInMarket
  simp only [List.mem_filterMap,Option.map_eq_some_iff,Option.filter_eq_some_iff,decide_eq_true_eq,Prod.mk.injEq]
  constructor
  · rintro ⟨_,inside,_,read,rfl,rfl⟩
    exact ⟨inside,read⟩
  · intro ⟨inside,read⟩
    exact ⟨address,inside,position,read,rfl,rfl⟩

theorem Tracked.enumerated_iff (tracked : s.Tracked) : s.Enumerated marketId ↔ ∀ address,
    openPosition (s.getPosition address marketId) → address ∈ (s.get (.positionIndex marketId)).getD [] := by
  have once : (s.getAllPositionsInMarket marketId).Nodup := by
    apply List.Nodup.filterMap _ tracked.addresses_nodup
    intro one other pair first second
    obtain ⟨_,_,rfl⟩ := Option.map_eq_some_iff.mp first
    obtain ⟨_,_,same⟩ := Option.map_eq_some_iff.mp second
    exact (congrArg Prod.fst same).symm
  constructor
  · rintro ⟨_,exactly⟩ address ⟨position,read⟩
    exact (tracked.mem_addresses address).mp (mem_getAllPositions.mp ((exactly address position).mpr read)).1
  · intro listed
    refine ⟨once,fun address position => mem_getAllPositions.trans ⟨fun inside => inside.2,fun read => ⟨?_,read⟩⟩⟩
    exact (tracked.mem_addresses address).mpr (listed address ⟨position,read⟩)

end StateManager

namespace PositionCall
variable {s : StateManager} {hasher : TreeHasher StateKey StateKey.Value B256}

-- A position is set in a market whose set is in memory or where nobody else holds one; no position is deleted
-- that the last commit holds open, but for the last one of the market.
def Safe (s : StateManager) : PositionCall → Prop
  | .setPosition address marketId _ => s.positionIndex marketId ≠ none ∨
      ∀ other, other ≠ address → ¬openPosition (s.getPosition other marketId)
  | .deletePosition address marketId => ¬openPosition (s.committed (.position address marketId)) ∨
      ∀ index, s.positionIndex marketId = some index → ∀ other ∈ index, other = address
  | _ => True

structure Ready (s : StateManager) : Prop where
  tracked : s.Tracked
  covered : s.Covered

theorem ready_new (config : PruningConfig) (hashOrder : HashOrder) : Ready (.new (.new .empty config) hashOrder) := by
  have nothing : ∀ key, (StateManager.new (.new .empty config) hashOrder).committed key = none :=
    fun key => Db.getValueOption_empty _ key
  refine ⟨⟨⟨fun _ _ mark => (by cases mark),fun _ _ _ => rfl,Nat.le_refl _⟩,fun _ _ found => (by cases found),
    fun _ _ _ found => ?_,fun _ _ found => (by cases found),fun _ _ => rfl⟩,?_⟩
  · cases found
  · rintro address marketId ⟨position,read,_⟩
    rw [nothing] at read
    cases read

section Steps
variable {address : Address} {marketId : Nat} {written : Option Position} {index : Option (List Address)} {t : StateManager}

theorem moved_covered (moved : s.Moved address marketId written index t) (covered : s.Covered) : t.Covered := by
  intro b market
  rw [moved.committed_eq,moved.committed_eq]
  exact covered b market

theorem moved_elsewhere (moved : s.Moved address marketId written index t) (before : s.Tracked) (after : t.Tracked)
    {market : Nat} (apart : market ≠ marketId) : t.Enumerated market ↔ s.Enumerated market := by
  rw [before.enumerated_iff,after.enumerated_iff,moved.get_eq (by simp) (by simp [apart])]
  have same : ∀ b, t.getPosition b market = s.getPosition b market := fun b => moved.get_eq (by simp [apart]) (by simp)
  simp only [same]

theorem moved_others (moved : s.Moved address marketId written index t) {b : Address} (other : b ≠ address) :
    t.getPosition b marketId = s.getPosition b marketId := moved.get_eq (by simp [other]) (by simp)

theorem setPosition_enumerated (tracked : s.Tracked) (listed : s.Enumerated marketId) (position : Position) :
    (s.setPosition address marketId position).Enumerated marketId ↔ Safe s (.setPosition address marketId position) := by
  obtain ⟨inserted,moved,members,_⟩ := s.setPosition_moved address marketId position
  rw [(tracked.setPosition address marketId position).enumerated_iff,moved.get_index,Option.some_or,Option.getD_some]
  have known := tracked.enumerated_iff.mp listed
  cases found : s.positionIndex marketId with
  | some index =>
    refine iff_of_true ?_ (.inl (by rw [found]; simp))
    intro b opened
    apply (members b).mpr
    by_cases own : b = address
    · exact .inl own
    · rw [moved_others moved own] at opened
      have inside := known b opened
      rw [tracked.mirrored marketId index found] at inside
      exact .inr (by rw [found]; exact inside)
  | none =>
    rw [found] at members
    constructor
    · intro every
      refine .inr fun other apart opened => ?_
      rw [← moved_others moved apart] at opened
      rcases (members other).mp (every other opened) with own | inside
      · exact apart own
      · cases inside
    · rintro (held | alone) b opened
      · exact absurd found held
      · by_cases own : b = address
        · exact (members b).mpr (.inl own)
        · rw [moved_others moved own] at opened
          exact absurd opened (alone b own)

theorem deletePosition_getPosition (s : StateManager) (address : Address) (marketId : Nat) :
    (s.deletePosition address marketId).getPosition address marketId = s.committed (.position address marketId) := by
  rw [(s.deletePosition_moved address marketId).get_own,Option.none_or]

-- In a market without a set nothing is buffered, so nothing is taken back.
theorem deletePosition_unindexed (tracked : s.Tracked) (listed : s.Enumerated marketId)
    (found : s.positionIndex marketId = none) : (s.deletePosition address marketId).Enumerated marketId := by
  have moved := s.deletePosition_moved address marketId
  have known := tracked.enumerated_iff.mp listed
  have bare : s.pending (.position address marketId) = none := by
    cases pending : s.pending (.position address marketId) with
    | none => rfl
    | some position =>
      obtain ⟨_,held,_⟩ := tracked.tracked address marketId position pending
      rw [found] at held
      cases held
  have read : s.getPosition address marketId = s.committed (.position address marketId) := by
    rw [StateManager.getPosition,StateManager.get_eq]
    exact congrArg (Option.or · _) bare
  have index : s.get (.positionIndex marketId) = s.committed (.positionIndex marketId) := by
    rw [StateManager.get_eq]
    exact congrArg (Option.or · _) (tracked.unbuffered marketId found)
  apply (tracked.deletePosition address marketId).enumerated_iff.mpr
  intro b opened
  rw [moved.get_index,StateManager.erased,found,Option.bind_none,Option.none_or,← index]
  by_cases same : b = address
  · subst same
    rw [deletePosition_getPosition,← read] at opened
    exact known b opened
  · rw [moved_others moved same] at opened
    exact known b opened

-- The set goes with its last trader, and the committed one is read again.
theorem deletePosition_last {set : List Address} (tracked : s.Tracked) (covered : s.Covered) (listed : s.Enumerated marketId)
    (found : s.positionIndex marketId = some set) (alone : ∀ other ∈ set, other = address) :
    (s.deletePosition address marketId).Enumerated marketId := by
  have moved := s.deletePosition_moved address marketId
  have known := tracked.enumerated_iff.mp listed
  rw [tracked.mirrored marketId set found,Option.getD_some] at known
  have left : (set.erase address).isEmpty = true := by
    apply List.isEmpty_iff.mpr
    apply List.eq_nil_iff_forall_not_mem.mpr
    intro other kept
    obtain ⟨apart,inside⟩ := ((tracked.sets marketId set found).mem_erase_iff).mp kept
    exact apart (alone other inside)
  apply (tracked.deletePosition address marketId).enumerated_iff.mpr
  intro b opened
  rw [moved.get_index,StateManager.erased,found,Option.bind_some,if_pos left,Option.none_or]
  by_cases same : b = address
  · subst same
    rw [deletePosition_getPosition] at opened
    exact covered b marketId opened
  · rw [moved_others moved same] at opened
    exact absurd (alone b (known b opened)) same

-- Among others the deleted trader leaves the set, while a committed position is read again.
theorem deletePosition_among {set : List Address} (tracked : s.Tracked) (listed : s.Enumerated marketId)
    (found : s.positionIndex marketId = some set) (several : ∃ other ∈ set, other ≠ address) :
    (s.deletePosition address marketId).Enumerated marketId ↔ ¬openPosition (s.committed (.position address marketId)) := by
  have moved := s.deletePosition_moved address marketId
  have known := tracked.enumerated_iff.mp listed
  have distinct := tracked.sets marketId set found
  rw [tracked.mirrored marketId set found,Option.getD_some] at known
  have left : ¬(set.erase address).isEmpty = true := by
    obtain ⟨other,inside,apart⟩ := several
    intro empty
    have kept := (List.mem_erase_of_ne apart).mpr inside
    rw [List.isEmpty_iff.mp empty] at kept
    cases kept
  rw [(tracked.deletePosition address marketId).enumerated_iff,moved.get_index,StateManager.erased,found,Option.bind_some,
    if_neg left,Option.some_or,Option.getD_some]
  constructor
  · intro every opened
    rw [← deletePosition_getPosition] at opened
    exact ((distinct.mem_erase_iff).mp (every address opened)).1 rfl
  · intro closed b opened
    have apart : b ≠ address := by
      rintro rfl
      rw [deletePosition_getPosition] at opened
      exact closed opened
    rw [moved_others moved apart] at opened
    exact (distinct.mem_erase_iff).mpr ⟨apart,known b opened⟩

theorem deletePosition_enumerated (tracked : s.Tracked) (covered : s.Covered) (listed : s.Enumerated marketId) :
    (s.deletePosition address marketId).Enumerated marketId ↔ Safe s (.deletePosition address marketId) := by
  cases found : s.positionIndex marketId with
  | none =>
    refine iff_of_true (deletePosition_unindexed tracked listed found) (.inr fun index held => ?_)
    rw [found] at held
    cases held
  | some index =>
    by_cases alone : ∀ other ∈ index, other = address
    · refine iff_of_true (deletePosition_last tracked covered listed found alone) (.inr fun held same => ?_)
      rw [found] at same
      cases same
      exact alone
    · rw [deletePosition_among tracked listed found (by simpa using alone)]
      refine ⟨.inl,?_⟩
      rintro (closed | single)
      · exact closed
      · exact absurd (single index found) alone

theorem beginBlock_get (tracked : s.Tracked) {height : Nat} (later : s.version ≤ height) (key : StateKey) :
    (s.beginBlock height).committed key = s.committed key ∧ (s.beginBlock height).get key = s.get key := by
  have dated : (s.beginBlock height).Dated :=
    ⟨tracked.dated.marked,tracked.dated.bare,tracked.dated.marker.trans later⟩
  have same : (s.beginBlock height).committed key = s.committed key :=
    (dated.committed_eq key).trans (tracked.dated.committed_eq key).symm
  refine ⟨same,?_⟩
  rw [StateManager.get_eq,same,StateManager.get_eq s]
  rfl

theorem commit_get (tracked : s.Tracked) (plain : prunes s.storage.pruningConfig s.version = false) (key : StateKey) :
    (s.commit hasher).2.pending key = none ∧ (s.commit hasher).2.committed key = s.get key ∧
      (s.commit hasher).2.get key = s.get key := by
  obtain ⟨dated,base⟩ := @StateManager.Dated.commit s hasher tracked.dated plain
  have bare : (s.commit hasher).2.pending key = none := by
    change (s.storage.commit hasher s.version).2.pendingUpdates.lookup key = none
    rw [commit_pending]
    rfl
  have written : (s.commit hasher).2.committed key = s.get key := (dated.committed_eq key).trans (base key)
  refine ⟨bare,written,?_⟩
  rw [StateManager.get_eq,← written]
  exact congrArg (Option.or · _) bare

theorem restart_get (tracked : s.Tracked) (config : PruningConfig) (hashOrder : HashOrder) (key : StateKey) :
    (StateManager.new (.new s.storage.db config) hashOrder).committed key = s.committed key := by
  have dated : (StateManager.new (.new s.storage.db config) hashOrder).Dated :=
    ⟨tracked.dated.marked,tracked.dated.bare,Nat.le_refl _⟩
  exact (dated.committed_eq key).trans (tracked.dated.committed_eq key).symm

theorem reads_enumerated (tracked : s.Tracked) (after : t.Tracked) (reads : ∀ key, t.get key = s.get key)
    (listed : s.Enumerated marketId) : t.Enumerated marketId := by
  apply after.enumerated_iff.mpr
  intro address
  rw [StateManager.getPosition,reads,reads]
  exact tracked.enumerated_iff.mp listed address

theorem commit_ready (tracked : s.Tracked) (plain : prunes s.storage.pruningConfig s.version = false)
    (listed : ∀ marketId, s.Enumerated marketId) :
    Ready (s.commit hasher).2 ∧ ∀ marketId, (s.commit hasher).2.Enumerated marketId := by
  have after : (s.commit hasher).2.Tracked := by
    refine ⟨(tracked.dated.commit plain).1,tracked.sets,?_,?_,fun marketId _ => (commit_get tracked plain _).1⟩
    · intro address marketId position found
      rw [(commit_get tracked plain _).1] at found
      cases found
    · intro marketId index found
      rw [(commit_get tracked plain _).2.2]
      exact tracked.mirrored marketId index found
  refine ⟨⟨after,?_⟩,fun marketId =>
    reads_enumerated tracked after (fun key => (commit_get tracked plain key).2.2) (listed marketId)⟩
  -- Whoever is open at the commit was listed, and the list is committed as well.
  intro address marketId opened
  rw [(commit_get tracked plain _).2.1] at opened ⊢
  exact tracked.enumerated_iff.mp (listed marketId) address opened

theorem restart_ready (tracked : s.Tracked) (covered : s.Covered) (config : PruningConfig) (hashOrder : HashOrder) :
    Ready (.new (.new s.storage.db config) hashOrder) ∧
      ∀ marketId, (StateManager.new (.new s.storage.db config) hashOrder).Enumerated marketId := by
  generalize opened : StateManager.new (.new s.storage.db config) hashOrder = t
  have committed : ∀ key, t.committed key = s.committed key := opened ▸ restart_get tracked config hashOrder
  have after : t.Tracked := opened ▸ ⟨⟨tracked.dated.marked,tracked.dated.bare,Nat.le_refl _⟩,
    fun _ _ found => (by cases found),fun _ _ _ found => (by cases found),fun _ _ found => (by cases found),fun _ _ => rfl⟩
  have bare : ∀ key, t.get key = s.committed key := by
    intro key
    rw [t.get_eq,← opened]
    exact restart_get tracked config hashOrder key
  refine ⟨⟨after,?_⟩,?_⟩
  · intro address marketId
    rw [committed,committed]
    exact covered address marketId
  · intro marketId
    apply after.enumerated_iff.mpr
    intro address
    rw [StateManager.getPosition,bare,bare]
    exact covered address marketId

theorem beginBlock_ready (tracked : s.Tracked) (covered : s.Covered) {height : Nat} (later : s.version ≤ height)
    (listed : ∀ marketId, s.Enumerated marketId) :
    Ready (s.beginBlock height) ∧ ∀ marketId, (s.beginBlock height).Enumerated marketId := by
  have same := fun key => beginBlock_get tracked later key
  have after : (s.beginBlock height).Tracked := by
    refine ⟨⟨tracked.dated.marked,tracked.dated.bare,tracked.dated.marker.trans later⟩,tracked.sets,tracked.tracked,
      ?_,tracked.unbuffered⟩
    intro marketId index found
    rw [(same _).2]
    exact tracked.mirrored marketId index found
  refine ⟨⟨after,?_⟩,fun marketId => reads_enumerated tracked after (fun key => (same key).2) (listed marketId)⟩
  intro address marketId
  rw [(same _).1,(same _).1]
  exact covered address marketId

theorem moved_ready (moved : s.Moved address marketId written index t) (tracked : s.Tracked) (covered : s.Covered)
    (after : t.Tracked) (listed : ∀ marketId, s.Enumerated marketId) :
    Ready t ∧ ((∀ market, t.Enumerated market) ↔ t.Enumerated marketId) := by
  refine ⟨⟨after,moved_covered moved covered⟩,fun every => every marketId,fun own market => ?_⟩
  by_cases same : market = marketId
  · exact same ▸ own
  · exact (moved_elsewhere moved tracked after same).mpr (listed market)

theorem apply_ready (call : PositionCall) (ready : Ready s) (allowed : call.Allowed s)
    (listed : ∀ marketId, s.Enumerated marketId) :
    Ready (call.apply hasher s) ∧ ((∀ marketId, (call.apply hasher s).Enumerated marketId) ↔ call.Safe s) := by
  obtain ⟨tracked,covered⟩ := ready
  cases call with
  | setPosition address marketId position =>
    obtain ⟨_,moved,_⟩ := s.setPosition_moved address marketId position
    obtain ⟨kept,alone_⟩ := moved_ready moved tracked covered (tracked.setPosition address marketId position) listed
    exact ⟨kept,alone_.trans (setPosition_enumerated tracked (listed marketId) position)⟩
  | deletePosition address marketId =>
    have moved := s.deletePosition_moved address marketId
    obtain ⟨kept,alone_⟩ := moved_ready moved tracked covered (tracked.deletePosition address marketId) listed
    exact ⟨kept,alone_.trans (deletePosition_enumerated tracked covered (listed marketId))⟩
  | commit =>
    obtain ⟨kept,every⟩ := @commit_ready s hasher tracked allowed listed
    exact ⟨kept,iff_of_true every trivial⟩
  | restart config hashOrder =>
    obtain ⟨kept,every⟩ := restart_ready tracked covered config hashOrder
    exact ⟨kept,iff_of_true every trivial⟩
  | beginBlock height =>
    obtain ⟨kept,every⟩ := beginBlock_ready tracked covered allowed listed
    exact ⟨kept,iff_of_true every trivial⟩

end Steps
section Runs
variable {calls : List PositionCall}

theorem run_snoc (front : List PositionCall) (call : PositionCall) :
    run hasher s (front ++ [call]) = call.apply hasher (run hasher s front) := by simp [run]

-- Without blocks between them the calls stay at the first version, where nothing is pruned.
theorem allowed_unbegun (config : PruningConfig) (hashOrder : HashOrder) (still : ∀ height, .beginBlock height ∉ calls)
    (front : List PositionCall) (call : PositionCall) (earlier : front ++ [call] <+: calls) :
    call.Allowed (run hasher (.new (.new .empty config) hashOrder) front) := by
  have first : ∀ front, front <+: calls → (run hasher (.new (.new .empty config) hashOrder) front).version = 0 ∧
      (run hasher (.new (.new .empty config) hashOrder) front).storage.db.currentVersion.getD 0 = 0 := by
    intro front
    induction front using List.reverseRecOn with
    | nil => exact fun _ => ⟨rfl,rfl⟩
    | append_singleton front call ih =>
      intro earlier
      obtain ⟨version,marker⟩ := ih ((List.prefix_append _ _).trans earlier)
      rw [run_snoc]
      cases call with
      | setPosition address marketId position =>
        obtain ⟨_,moved,_⟩ := StateManager.setPosition_moved (run hasher (.new (.new .empty config) hashOrder) front) address
          marketId position
        exact ⟨moved.version.trans version,(congrArg (fun db => db.currentVersion.getD 0) moved.db).trans marker⟩
      | deletePosition address marketId =>
        have moved := StateManager.deletePosition_moved (run hasher (.new (.new .empty config) hashOrder) front) address marketId
        exact ⟨moved.version.trans version,(congrArg (fun db => db.currentVersion.getD 0) moved.db).trans marker⟩
      | commit =>
        refine ⟨version,?_⟩
        have marked := commit_marker hasher (run hasher (.new (.new .empty config) hashOrder) front).storage
          (run hasher (.new (.new .empty config) hashOrder) front).version
        exact (congrArg (Option.getD · 0) marked).trans version
      | restart config hashOrder => exact ⟨marker,marker⟩
      | beginBlock height => exact absurd (earlier.subset (List.mem_append_right _ (List.mem_singleton_self _))) (still height)
  have version := (first front ((List.prefix_append _ _).trans earlier)).1
  cases call with
  | setPosition | deletePosition | restart => trivial
  | commit =>
    change prunes _ _ = false
    rw [version]
    simp [prunes]
  | beginBlock height => exact absurd (earlier.subset (List.mem_append_right _ (List.mem_singleton_self _))) (still height)

theorem run_ready (started : Ready s) (fresh : ∀ marketId, s.Enumerated marketId)
    (allowed : ∀ front call, front ++ [call] <+: calls → call.Allowed (run hasher s front)) :
    ((∀ front, front <+: calls → ∀ marketId, (run hasher s front).Enumerated marketId) → Ready (run hasher s calls)) ∧
      ((∀ front, front <+: calls → ∀ marketId, (run hasher s front).Enumerated marketId) ↔
        ∀ front call, front ++ [call] <+: calls → call.Safe (run hasher s front)) := by
  induction calls using List.reverseRecOn with
  | nil =>
    refine ⟨fun _ => started,iff_of_true ?_ ?_⟩
    · intro front earlier
      rw [List.prefix_nil.mp earlier]
      exact fresh
    · intro front call earlier
      simp at earlier
  | append_singleton calls call ih =>
    have longer : ∀ front, front <+: calls → front <+: calls ++ [call] := fun front earlier =>
      earlier.trans (List.prefix_append _ _)
    obtain ⟨ready,exactly⟩ := ih fun front call earlier => allowed front call (longer _ earlier)
    have last := allowed calls call (List.prefix_refl _)
    refine ⟨fun every => ?_,fun every => ?_,fun safe => ?_⟩
    · have before := fun front earlier => every front (longer front earlier)
      rw [run_snoc]
      exact (apply_ready call (ready before) last (before calls (List.prefix_refl _))).1
    · have before := fun front earlier => every front (longer front earlier)
      have own := every (calls ++ [call]) (List.prefix_refl _)
      rw [run_snoc] at own
      have step := (apply_ready call (ready before) last (before calls (List.prefix_refl _))).2.mp own
      intro front next earlier
      rcases List.prefix_concat_iff.mp earlier with whole | earlier
      · obtain ⟨rfl,same⟩ := List.append_inj' whole rfl
        cases same
        exact step
      · exact exactly.mp before front next earlier
    · have before := exactly.mpr fun front next earlier => safe front next (longer _ earlier)
      intro front earlier
      rcases List.prefix_concat_iff.mp earlier with rfl | earlier
      · rw [run_snoc]
        exact (apply_ready call (ready before) last (before calls (List.prefix_refl _))).2.mpr
          (safe calls call (List.prefix_refl _))
      · exact before front earlier

theorem positions_enumerated_iff (hasher : TreeHasher StateKey StateKey.Value B256) (config : PruningConfig)
    (hashOrder : HashOrder) (calls : List PositionCall)
    (allowed : (∀ height, .beginBlock height ∉ calls) ∨ ∀ front call, front ++ [call] <+: calls →
      call.Allowed (run hasher (.new (.new .empty config) hashOrder) front)) :
    (∀ front, front <+: calls → ∀ marketId,
        (run hasher (.new (.new .empty config) hashOrder) front).Enumerated marketId) ↔
      ∀ front call, front ++ [call] <+: calls → call.Safe (run hasher (.new (.new .empty config) hashOrder) front) := by
  have started := ready_new config hashOrder
  have fresh : ∀ marketId, (StateManager.new (.new .empty config) hashOrder).Enumerated marketId := by
    intro marketId
    apply started.tracked.enumerated_iff.mpr
    rintro address ⟨position,read,_⟩
    rw [StateManager.getPosition,StateManager.get_eq] at read
    have nothing : (StateManager.new (.new .empty config) hashOrder).committed (.position address marketId) = none :=
      Db.getValueOption_empty _ _
    rw [nothing] at read
    cases read
  have every : ∀ front call, front ++ [call] <+: calls →
      call.Allowed (run hasher (.new (.new .empty config) hashOrder) front) := by
    rcases allowed with still | allowed
    · exact allowed_unbegun config hashOrder still
    · exact allowed
  exact (run_ready started fresh every).2

open Overlay in
theorem positions_enumerated_iff_reopened :
    (trader,held) ∈ (run roots (.new (.new .empty {}) .keep)
      [.setPosition trader 0 held,.commit,.restart {} .keep]).getAllPositionsInMarket 0 := by
  have exactly := positions_enumerated_iff roots {} .keep [.setPosition trader 0 held,.commit,.restart {} .keep]
    (.inl (by simp))
  have safe : ∀ (front : List PositionCall) (call : PositionCall),
      front ++ [call] <+: [.setPosition trader 0 held,.commit,.restart {} .keep] →
      call.Safe (run roots (.new (.new .empty {}) .keep) front) := by
    intro front call earlier
    cases call with
    | setPosition address marketId position =>
      cases front with
      | nil =>
        refine .inr fun other _ ⟨_,read,_⟩ => ?_
        cases read
      | cons first front =>
        have member := (List.cons_prefix_cons.mp earlier).2.subset (List.mem_append_right front (List.mem_singleton_self _))
        simp at member
    | deletePosition address marketId =>
      have member := earlier.subset (List.mem_append_right front (List.mem_singleton_self _))
      simp at member
    | commit | restart | beginBlock => trivial
  exact ((exactly.mpr safe _ (List.prefix_refl _) 0).2 trader held).mpr (by decide +kernel)

open Overlay in
-- Another trader's first position after a restart starts the set anew, and is written over the persisted one.
theorem restart_forgets_traders :
    let s := run roots (.new (.new .empty {}) .keep)
      [.setPosition trader 0 held,.commit,.restart {} .keep,.setPosition (.ofNat 9) 0 held]
    s.getPosition trader 0 = some held ∧ s.getAllPositionsInMarket 0 = [(.ofNat 9,held)] ∧ ¬s.Enumerated 0 := by
  intro s
  have read : s.getPosition trader 0 = some held := by decide +kernel
  have listed : s.getAllPositionsInMarket 0 = [(.ofNat 9,held)] := by decide +kernel
  refine ⟨read,listed,fun every => ?_⟩
  have inside := (every.2 trader held).mpr ⟨read,by decide⟩
  rw [listed] at inside
  revert inside
  decide +kernel

end Runs
end PositionCall
end Pranklin
