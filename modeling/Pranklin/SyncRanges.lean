import Pranklin.Footprint
import Pranklin.ReplicaSync
import Pranklin.Tiling

namespace Pranklin.SyncRanges
open Words Effect Footprint Tiling Retrying Replica ReadOnlyExecutor

def tracedBatches (leader : Leader) (batchSize leaderHeight fuel current syncedBlocks : Nat) :
    Noting Replica Stretch ReadOnlyError (Option Nat) :=
  if current ≤ leaderHeight then
    match fuel with
    | 0 => pure none
    | fuel + 1 => do
      let last := batchEnd batchSize leaderHeight current
      let txs ← touching (fun _ => [⟨current,last⟩]) (tries fun _ => fetchTransactions leader current last)
      plainly (onReplica (replay (txs.map (·.2))))
      tracedBatches leader batchSize leaderHeight fuel (addWrap 64 last 1)
        (addWrap 64 syncedBlocks (addWrap 64 (subWrap 64 last current) 1))
  else pure (some syncedBlocks)

def tracedSync (leader : Leader) (batchSize fuel : Nat) : Noting Replica Stretch ReadOnlyError (Option SyncResult) := do
  let currentHeight ← plainly (reads (·.blockHeight))
  let leaderHeight ← plainly (tries fun _ => fetchLeaderHeight leader)
  if leaderHeight ≤ currentHeight then return some ⟨0,currentHeight,true⟩
  else
    match ← tracedBatches leader batchSize leaderHeight fuel (addWrap 64 currentHeight 1) 0 with
    | none => return none
    | some syncedBlocks =>
      plainly (writes fun replica => {replica with blockHeight:=leaderHeight})
      return some ⟨syncedBlocks,leaderHeight,true⟩

variable {leader : Leader} {batchSize leaderHeight fuel current syncedBlocks : Nat} {replica : Replica}

theorem tracedBatches_notes (leader : Leader) (batchSize leaderHeight fuel current syncedBlocks : Nat) :
    Notes (tracedBatches leader batchSize leaderHeight fuel current syncedBlocks)
      (syncBatches leader batchSize leaderHeight fuel current syncedBlocks) := by
  induction fuel generalizing current syncedBlocks with
  | zero =>
    unfold tracedBatches syncBatches
    exact .ite (.pure _) (.pure _)
  | succ fuel ih =>
    unfold tracedBatches syncBatches
    exact .ite (.bind (.touching _ _) fun _ => .bind (.plainly _) fun _ => ih _ _) (.pure _)

theorem tracedSync_notes (leader : Leader) (batchSize fuel : Nat) :
    Notes (tracedSync leader batchSize fuel) (Replica.syncFromLeader leader batchSize fuel) := by
  unfold tracedSync Replica.syncFromLeader
  refine .bind (.plainly _) fun _ => .bind (.plainly _) fun _ => .ite (.pure _) ?_
  refine .bind (tracedBatches_notes _ _ _ _ _ _) fun counted => ?_
  cases counted with
  | none => exact .pure _
  | some _ => exact .bind (.plainly _) fun _ => .pure _

def fetched (leader : Leader) (batchSize fuel : Nat) (replica : Replica) : List Stretch :=
  footprint (tracedSync leader batchSize fuel) replica

-- The loop comes to an end, and has gone over the blocks between the two heights once.
def SyncsWhole (leader : Leader) (batchSize leaderHeight : Nat) (replica : Replica) : Prop :=
  ∃ fuel result after, exec (Replica.syncFromLeader leader batchSize fuel) replica = (.ok (some result),after) ∧
    result.syncedBlocks = leaderHeight - replica.blockHeight ∧
    Tiles (replica.blockHeight + 1) leaderHeight (fetched leader batchSize fuel replica)

section Round
variable (within : current ≤ leaderHeight)
include within

theorem footprint_round : footprint (tracedBatches leader batchSize leaderHeight (fuel + 1) current syncedBlocks) replica =
    ⟨current,batchEnd batchSize leaderHeight current⟩ ::
      match fetchTransactions leader current (batchEnd batchSize leaderHeight current) with
      | .error _ => []
      | .ok txs =>
        match run replayTx (txs.map (·.2)) replica.engine with
        | (.ok _,e) =>
          footprint (tracedBatches leader batchSize leaderHeight fuel (addWrap 64 (batchEnd batchSize leaderHeight current) 1)
            (addWrap 64 syncedBlocks (addWrap 64 (subWrap 64 (batchEnd batchSize leaderHeight current) current) 1)))
            {replica with engine:=e}
        | (.error _,_) => [] := by
  have replays : ∀ (txs : List (Nat × Transaction)) (current syncedBlocks : Nat), Notes
      (plainly (onReplica (replay (txs.map (·.2)))) >>= fun _ =>
        tracedBatches leader batchSize leaderHeight fuel current syncedBlocks)
      (onReplica (replay (txs.map (·.2))) >>= fun _ => syncBatches leader batchSize leaderHeight fuel current syncedBlocks) :=
    fun txs _ _ => .bind (.plainly _) fun _ => tracedBatches_notes _ _ _ _ _ _
  rw [tracedBatches,if_pos within]
  dsimp only
  rw [Notes.footprint_bind (.touching _ _) (fun txs => replays txs _ _)]
  rw [exec_tries,footprint_touching,List.singleton_append]
  cases answer : fetchTransactions leader current (batchEnd batchSize leaderHeight current) with
  | error error => rfl
  | ok txs =>
    dsimp only
    rw [Notes.footprint_bind (.plainly _) fun _ => tracedBatches_notes _ _ _ _ _ _]
    rw [ReplicaSync.exec_onReplica,footprint_plainly,List.nil_append]
    cases run replayTx (txs.map (·.2)) replica.engine with
    | mk outcome e => cases outcome <;> rfl

end Round

section Loop

-- What holds whenever the loop looks at its condition: nothing it computes from here on wraps.
structure Underway (batchSize leaderHeight current syncedBlocks : Nat) : Prop where
  started : current ≤ leaderHeight + 1
  room : current ≤ leaderHeight → current + batchSize ≤ 2 ^ 64
  counted : syncedBlocks + (leaderHeight + 1 - current) < 2 ^ 64

theorem batchEnd_of_room (positive : 0 < batchSize) (room : current + batchSize ≤ 2 ^ 64) :
    batchEnd batchSize leaderHeight current = min (current + batchSize - 1) leaderHeight := by
  rcases Nat.lt_or_eq_of_le room with room | full
  · rw [batchEnd,addWrap_of_lt room,subWrap_of_le (by omega)]
  -- The sum wraps to zero, and one less than that is the largest word.
  · have wrapped : addWrap 64 current batchSize = 0 := by rw [addWrap,full,Nat.mod_self]
    rw [batchEnd,wrapped,full]
    rfl

theorem Underway.round (underway : Underway batchSize leaderHeight current syncedBlocks) (positive : 0 < batchSize)
    (low : leaderHeight < 2 ^ 63) (within : current ≤ leaderHeight) :
    let last := batchEnd batchSize leaderHeight current
    let counted := addWrap 64 syncedBlocks (addWrap 64 (subWrap 64 last current) 1)
    current ≤ last ∧ last ≤ leaderHeight ∧ addWrap 64 last 1 = last + 1 ∧ counted = syncedBlocks + (last + 1 - current) ∧
      Underway batchSize leaderHeight (last + 1) counted := by
  intro last counted
  obtain ⟨_,room,fits⟩ := underway
  have room := room within
  have ends : last = min (current + batchSize - 1) leaderHeight := batchEnd_of_room positive room
  have some : current ≤ last := by omega
  have inside : last ≤ leaderHeight := by omega
  have total : counted = syncedBlocks + (last + 1 - current) := by
    have one : addWrap 64 (last - current) 1 = last + 1 - current := by
      rw [addWrap_of_lt (by omega)]
      omega
    change addWrap 64 syncedBlocks (addWrap 64 (subWrap 64 last current) 1) = _
    rw [subWrap_of_le some,one,addWrap_of_lt (by omega)]
  exact ⟨some,inside,addWrap_of_lt (by omega),total,by omega,fun more => by omega,by omega⟩

theorem laid_past (past : leaderHeight < current) :
    (exec (syncBatches leader batchSize leaderHeight fuel current syncedBlocks) replica).1 =
        .ok (some (syncedBlocks + (leaderHeight + 1 - current))) ∧
      Laid leaderHeight current (footprint (tracedBatches leader batchSize leaderHeight fuel current syncedBlocks) replica) := by
  have ended : ¬current ≤ leaderHeight := Nat.not_le_of_lt past
  have nothing : leaderHeight + 1 - current = 0 := by omega
  rw [syncBatches.eq_def,tracedBatches.eq_def,if_neg ended,if_neg ended,nothing]
  exact ⟨rfl,.done past⟩

-- By induction on the rounds: each lays its range where the one before has ended.
theorem syncBatches_laid (positive : 0 < batchSize) (low : leaderHeight < 2 ^ 63)
    (underway : Underway batchSize leaderHeight current syncedBlocks) (enough : leaderHeight + 1 - current ≤ fuel)
    (succeeds : ∀ error, (exec (syncBatches leader batchSize leaderHeight fuel current syncedBlocks) replica).1 ≠ .error error) :
    (exec (syncBatches leader batchSize leaderHeight fuel current syncedBlocks) replica).1 =
        .ok (some (syncedBlocks + (leaderHeight + 1 - current))) ∧
      Laid leaderHeight current (footprint (tracedBatches leader batchSize leaderHeight fuel current syncedBlocks) replica) := by
  induction fuel generalizing current syncedBlocks replica with
  | zero => exact laid_past (by omega)
  | succ fuel ih =>
    by_cases within : current ≤ leaderHeight
    case neg => exact laid_past (Nat.lt_of_not_le within)
    obtain ⟨some,inside,next,total,after⟩ := underway.round positive low within
    rw [footprint_round within]
    cases answer : fetchTransactions leader current (batchEnd batchSize leaderHeight current) with
    | error error =>
      rw [ReplicaSync.syncBatches_unanswered within answer] at succeeds
      exact absurd rfl (succeeds error)
    | ok txs =>
      rw [ReplicaSync.syncBatches_answered within answer] at succeeds ⊢
      dsimp only
      cases ran : run replayTx (txs.map (·.2)) replica.engine with
      | mk outcome e =>
        rw [ran] at succeeds
        cases outcome with
        | error error => exact absurd rfl (succeeds _)
        | ok _ =>
          dsimp only at succeeds ⊢
          rw [next] at succeeds ⊢
          obtain ⟨counted,laid⟩ := ih after (by omega) succeeds
          refine ⟨counted.trans ?_,.cons some inside laid⟩
          rw [total]
          congr 2
          omega

-- A batch of no blocks ends before it begins, and the next one begins where it did.
theorem syncBatches_stuck (some : 1 ≤ current) (within : current ≤ leaderHeight) (low : leaderHeight < 2 ^ 63) (value : Nat) :
    (exec (syncBatches leader 0 leaderHeight fuel current syncedBlocks) replica).1 ≠ .ok (.some value) := by
  have ends : batchEnd 0 leaderHeight current = current - 1 := by
    rw [batchEnd,addWrap_of_lt (by omega),Nat.add_zero,subWrap_of_le some]
    omega
  have next : addWrap 64 (current - 1) 1 = current := by
    rw [addWrap_of_lt (by omega)]
    omega
  induction fuel generalizing syncedBlocks replica with
  | zero =>
    rw [syncBatches,if_pos within]
    exact fun same => by cases same
  | succ fuel ih =>
    cases answer : fetchTransactions leader current (batchEnd 0 leaderHeight current) with
    | error error =>
      rw [ReplicaSync.syncBatches_unanswered within answer]
      exact fun same => by cases same
    | ok txs =>
      rw [ReplicaSync.syncBatches_answered within answer,ends,next]
      cases run replayTx (txs.map (·.2)) replica.engine with
      | mk outcome e =>
        cases outcome with
        | error error => exact fun same => by cases same
        | ok _ => exact ih

theorem batchEnd_of_wrap (fits : batchSize < 2 ^ 64) (started : current < 2 ^ 64) (wraps : 2 ^ 64 < current + batchSize) :
    batchEnd batchSize leaderHeight current < current := by
  have wrapped : addWrap 64 current batchSize = current + batchSize - 2 ^ 64 := by
    rw [addWrap,Nat.mod_eq_sub_mod (Nat.le_of_lt wraps),Nat.mod_eq_of_lt (by omega)]
  rw [batchEnd,wrapped,subWrap_of_le (by omega)]
  omega

end Loop

section Sync

theorem fetchLeaderHeight_ok (asked : leader.blockHeight = .ok leaderHeight) : fetchLeaderHeight leader = .ok leaderHeight := by
  rw [fetchLeaderHeight,asked]
  rfl

theorem syncFromLeader_behind (asked : leader.blockHeight = .ok leaderHeight) (behind : replica.blockHeight < leaderHeight)
    (low : leaderHeight < 2 ^ 63) :
    exec (Replica.syncFromLeader leader batchSize fuel) replica =
      match exec (syncBatches leader batchSize leaderHeight fuel (replica.blockHeight + 1) 0) replica with
      | (.error error,after) => (.error error,after)
      | (.ok none,after) => (.ok none,after)
      | (.ok (some counted),after) =>
        (.ok (some ⟨counted,leaderHeight,true⟩),{after with blockHeight:=leaderHeight}) := by
  rw [Replica.syncFromLeader,exec_reads_bind,exec_bind,exec_tries,fetchLeaderHeight_ok asked]
  dsimp only
  rw [if_neg (Nat.not_le_of_lt behind),addWrap_of_lt (by omega),exec_bind]
  cases exec (syncBatches leader batchSize leaderHeight fuel (replica.blockHeight + 1) 0) replica with
  | mk outcome after => rcases outcome with error | _ | counted <;> rfl

theorem fetched_behind (asked : leader.blockHeight = .ok leaderHeight) (behind : replica.blockHeight < leaderHeight)
    (low : leaderHeight < 2 ^ 63) : fetched leader batchSize fuel replica =
      footprint (tracedBatches leader batchSize leaderHeight fuel (replica.blockHeight + 1) 0) replica := by
  rw [fetched,footprint,tracedSync,exec_bind,exec_plainly,exec_reads]
  dsimp only
  rw [exec_bind,exec_plainly,exec_tries,fetchLeaderHeight_ok asked]
  dsimp only
  rw [if_neg (Nat.not_le_of_lt behind),addWrap_of_lt (by omega),exec_bind,tracedBatches_notes]
  cases exec (syncBatches leader batchSize leaderHeight fuel (replica.blockHeight + 1) 0) replica with
  | mk outcome after =>
    rcases outcome with error | _ | counted
    · rfl
    · rfl
    · exact List.append_nil _

theorem syncsWhole_of_room (asked : leader.blockHeight = .ok leaderHeight) (behind : replica.blockHeight < leaderHeight)
    (low : leaderHeight < 2 ^ 63) (positive : 0 < batchSize) (room : replica.blockHeight + batchSize < 2 ^ 64)
    (succeeds : ∀ fuel error, (exec (Replica.syncFromLeader leader batchSize fuel) replica).1 ≠ .error error) :
    SyncsWhole leader batchSize leaderHeight replica := by
  -- As many rounds as there are blocks missing are enough.
  let fuel := leaderHeight - replica.blockHeight
  have underway : Underway batchSize leaderHeight (replica.blockHeight + 1) 0 :=
    ⟨by omega,fun _ => by omega,by omega⟩
  have through : ∀ error, (exec (syncBatches leader batchSize leaderHeight fuel (replica.blockHeight + 1) 0) replica).1 ≠
      .error error := by
    intro error failed
    refine succeeds fuel error ?_
    rw [syncFromLeader_behind asked behind low,exec_of_result failed]
  obtain ⟨counted,laid⟩ := syncBatches_laid positive low underway (by omega) through
  have total : 0 + (leaderHeight + 1 - (replica.blockHeight + 1)) = leaderHeight - replica.blockHeight := by omega
  have ran : exec (Replica.syncFromLeader leader batchSize fuel) replica = _ := syncFromLeader_behind asked behind low
  rw [exec_of_result counted] at ran
  refine ⟨fuel,_,_,ran,total,?_⟩
  rw [fetched_behind asked behind low]
  exact laid.tiles

theorem room_of_syncsWhole (asked : leader.blockHeight = .ok leaderHeight) (behind : replica.blockHeight < leaderHeight)
    (low : leaderHeight < 2 ^ 63) (fits : batchSize < 2 ^ 64) (whole : SyncsWhole leader batchSize leaderHeight replica) :
    0 < batchSize ∧ replica.blockHeight + batchSize < 2 ^ 64 := by
  obtain ⟨fuel,result,after,ran,_,tiles⟩ := whole
  rw [syncFromLeader_behind asked behind low] at ran
  rw [fetched_behind asked behind low] at tiles
  constructor
  · by_contra empty
    obtain rfl : batchSize = 0 := by omega
    cases stopped : exec (syncBatches leader 0 leaderHeight fuel (replica.blockHeight + 1) 0) replica with
    | mk outcome middle =>
      rw [stopped] at ran
      rcases outcome with error | _ | counted
      · cases ran
      · cases ran
      · exact syncBatches_stuck (Nat.succ_pos _) behind low counted (congrArg Prod.fst stopped)
  · by_contra wraps
    cases fuel with
    | zero =>
      rw [syncBatches,if_pos (Nat.succ_le_of_lt behind)] at ran
      cases ran
    | succ fuel =>
      have short : batchEnd batchSize leaderHeight (replica.blockHeight + 1) < replica.blockHeight + 1 :=
        batchEnd_of_wrap fits (by omega) (by omega)
      rw [footprint_round behind] at tiles
      exact absurd (tiles.filled _ List.mem_cons_self) (Nat.not_le_of_lt short)

-- The ranges are those of the sync itself, whose traced form they are read from (`tracedSync_notes`).
theorem sync_ranges_tile_iff (asked : leader.blockHeight = .ok leaderHeight) (behind : replica.blockHeight < leaderHeight)
    (low : leaderHeight < 2 ^ 63) (fits : batchSize < 2 ^ 64)
    (succeeds : ∀ fuel error, (exec (Replica.syncFromLeader leader batchSize fuel) replica).1 ≠ .error error) :
    SyncsWhole leader batchSize leaderHeight replica ↔ 0 < batchSize ∧ replica.blockHeight + batchSize < 2 ^ 64 :=
  ⟨room_of_syncsWhole asked behind low fits,
    fun ⟨positive,room⟩ => syncsWhole_of_room asked behind low positive room succeeds⟩

end Sync

section Bench

def idle (height : Nat) : Leader where
  blockHeight := .ok height
  blocks _ _ := .ok []

theorem idle_succeeds (behind : replica.blockHeight < height) (low : height < 2 ^ 63) (fuel : Nat) (error : ReadOnlyError) :
    (exec (Replica.syncFromLeader (idle height) batchSize fuel) replica).1 ≠ .error error := by
  have through : ∀ current syncedBlocks (replica : Replica),
      (exec (syncBatches (idle height) batchSize height fuel current syncedBlocks) replica).1 ≠ .error error := by
    induction fuel with
    | zero =>
      intro current syncedBlocks replica
      unfold syncBatches
      split <;> exact fun same => by cases same
    | succ fuel ih =>
      intro current syncedBlocks replica
      by_cases within : current ≤ height
      case neg =>
        rw [syncBatches,if_neg within]
        exact fun same => by cases same
      rw [ReplicaSync.syncBatches_answered within rfl]
      exact ih _ _ _
  have through := through (replica.blockHeight + 1) 0 replica
  rw [syncFromLeader_behind rfl behind low]
  cases ran : exec (syncBatches (idle height) batchSize height fuel (replica.blockHeight + 1) 0) replica with
  | mk outcome after =>
    rw [ran] at through
    rcases outcome with failure | _ | counted
    · exact fun same => through (by cases same; rfl)
    · exact fun same => by cases same
    · exact fun same => by cases same

def atHeight (height : Nat) : Replica := {ReplicaSync.behind with blockHeight:=height}

theorem sync_ranges_tile_iff_in_threes : SyncsWhole (idle 12) 3 12 (atHeight 5) :=
  (sync_ranges_tile_iff rfl (by decide) (by decide) (by decide) (idle_succeeds (by decide) (by decide))).mpr
    ⟨by decide,by decide⟩

theorem sync_ranges_fail : ¬SyncsWhole (idle 1) 0 1 (atHeight 0) ∧ ¬SyncsWhole (idle 2) (2 ^ 64 - 1) 2 (atHeight 1) := by
  refine ⟨fun whole => ?_,fun whole => ?_⟩
  · exact absurd (room_of_syncsWhole rfl (by decide) (by decide) (by decide) whole).1 (by decide)
  · exact absurd (room_of_syncsWhole rfl (by decide) (by decide) (by decide) whole).2 (by decide)

end Bench

end Pranklin.SyncRanges
