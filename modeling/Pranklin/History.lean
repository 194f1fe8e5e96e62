import Pranklin.Overlay
import Pranklin.Pruning

namespace Pranklin.Storage
open VersionLog
variable {K : Type} [DecidableEq K] {V : K → Type} {R : Type}

def Wrote (ops : List (Op K V)) (key : K) (version : Nat) (value : V key) : Prop :=
  ∃ before, before ++ [.commit version] <+: ops ∧ (Image.run before).buffer key = some value

-- The value of the greatest version not above the bound in which the key was written.
def LastWrote (ops : List (Op K V)) (key : K) (bound : Nat) (value : V key) : Prop :=
  ∃ stamp ≤ bound, Wrote ops key stamp value ∧
    ∀ later, stamp < later → later ≤ bound → ∀ other, ¬Wrote ops key later other

section Writes
variable {ops : List (Op K V)} {key : K} {value : V key}

theorem wrote_append {op : Op K V} :
    Wrote (ops ++ [op]) key stamp value ↔
      Wrote ops key stamp value ∨ op = .commit stamp ∧ (Image.run ops).buffer key = some value := by
  constructor
  · rintro ⟨before,earlier,buffered⟩
    rcases List.prefix_concat_iff.mp earlier with whole | earlier
    · obtain ⟨rfl,last⟩ := List.append_inj' whole rfl
      exact .inr ⟨(List.singleton_injective last).symm,buffered⟩
    · exact .inl ⟨before,earlier,buffered⟩
  · rintro (⟨before,earlier,buffered⟩ | ⟨rfl,buffered⟩)
    · exact ⟨before,earlier.trans (List.prefix_append _ _),buffered⟩
    · exact ⟨ops,List.prefix_refl _,buffered⟩

end Writes

section Runs
variable {hasher : TreeHasher K V R} {config : PruningConfig} {s t : RocksDbStorage K V R} {ops : List (Op K V)}

-- The records are the writes of the committed blocks, and a mark points at the newest
-- record of its key.
structure Logged (ops : List (Op K V)) (s : RocksDbStorage K V R) : Prop where
  records : ∀ key stamp value, s.db.values key stamp = some value ↔ Wrote ops key stamp value
  present : ∀ key latest, s.db.latest key = some latest → (s.db.values key latest).isSome

theorem Logged.buffer (logged : Logged ops s) (db : t.db = s.db) (quiet : ∀ version, op ≠ .commit version) :
    Logged (ops ++ [op]) t := by
  refine ⟨fun key stamp value => ?_,by rw [db]; exact logged.present⟩
  rw [db,logged.records,wrote_append]
  simp [quiet]

theorem Logged.commit (logged : Logged ops s) (committed : Committed hasher s version t)
    (buffered : ∀ key, s.pendingUpdates.lookup key = (Image.run ops).buffer key)
    (unwritten : ∀ key, s.db.values key version = none) : Logged (ops ++ [.commit version]) t := by
  refine ⟨fun key stamp value => ?_,fun key latest mark => ?_⟩
  · rw [committed.values,wrote_append,← logged.records,buffered]
    by_cases now : stamp = version
    · subst now
      rw [if_pos rfl,unwritten]
      simp
    · have apart : version ≠ stamp := fun same => now same.symm
      simp [now,apart]
  · rw [committed.latest] at mark
    split at mark
    · rename_i inside
      cases mark
      obtain ⟨value,found⟩ := Option.isSome_iff_exists.mp (AList.lookup_isSome.mpr inside)
      simp [committed.values,found]
    · rename_i outside
      have kept := logged.present key latest mark
      rw [committed.values,AList.lookup_eq_none.mpr outside]
      split <;> exact kept

theorem run_logged (increasing : (versions ops).Pairwise (· < ·))
    (unpruned : ∀ version ∈ versions ops, prunes config version = false) :
    Logged ops ((RocksDbStorage.new Db.empty config : RocksDbStorage K V R).run hasher ops) := by
  induction ops using List.reverseRecOn with
  | nil =>
    refine ⟨fun key stamp value => ⟨fun found => ?_,?_⟩,fun key latest mark => (by cases mark)⟩
    · cases found
    · rintro ⟨before,earlier,_⟩
      simp at earlier
  | append_singleton ops op ih =>
    rw [versions_append] at increasing unpruned
    obtain ⟨earlier,_,newer⟩ := List.pairwise_append.mp increasing
    have logged := ih earlier fun version inside => unpruned version (List.mem_append_left _ inside)
    have stamped : Stamped config ops ((RocksDbStorage.new Db.empty config : RocksDbStorage K V R).run hasher ops) :=
      run_stamped earlier
    rw [run_append]
    cases op with
    | set key value => exact logged.buffer rfl fun _ => by simp
    | delete key => exact logged.buffer rfl fun _ => by simp
    | commit version =>
      have plain := unpruned version (List.mem_append_right _ (by simp [versions]))
      rw [← stamped.config] at plain
      change Logged _ (RocksDbStorage.commit hasher _ version).2
      rw [commit_state,plain]
      refine logged.commit (commitUnpruned_committed hasher _ version) (run_pending hasher config ops) fun key => ?_
      by_contra present
      exact Nat.lt_irrefl version (newer version (stamped.records key version present) version (by simp [versions]))

omit [DecidableEq K] in
-- The fast path is taken only where it finds what the scan would find.
theorem getValueOption_newest {db : Db K V R} {key : K}
    (marked : ∀ latest, db.latest key = some latest → ∀ later, latest < later → db.values key later = none)
    (present : ∀ latest, db.latest key = some latest → (db.values key latest).isSome) (maxVersion : Nat) :
    db.getValueOption maxVersion key = newest (db.values key) maxVersion := by
  unfold Db.getValueOption
  cases mark : db.latest key with
  | none => rfl
  | some latest =>
    dsimp only
    split
    · rename_i below
      have found : NewestAt (db.values key) maxVersion latest :=
        ⟨below,present latest mark,fun later above _ => marked latest mark later above⟩
      rw [newest_of_newestAt found]
    · rfl

theorem run_newest (increasing : (versions ops).Pairwise (· < ·))
    (unpruned : ∀ version ∈ versions ops, prunes config version = false) (key : K) (maxVersion : Nat) :
    ((RocksDbStorage.new Db.empty config : RocksDbStorage K V R).run hasher ops).db.getValueOption maxVersion key =
      newest (((RocksDbStorage.new Db.empty config : RocksDbStorage K V R).run hasher ops).db.values key) maxVersion :=
  getValueOption_newest ((run_stamped increasing).marked key) ((run_logged increasing unpruned).present key) maxVersion

theorem newest_lastWrote (logged : Logged ops s) (key : K) (bound : Nat) (value : V key) :
    newest (s.db.values key) bound = some value ↔ LastWrote ops key bound value := by
  rw [newest_eq_some]
  refine exists_congr fun stamp => and_congr_right fun _ => and_congr (logged.records key stamp value) ?_
  refine forall_congr' fun later => imp_congr_right fun _ => imp_congr_right fun _ => ?_
  rw [Option.eq_none_iff_forall_ne_some]
  exact forall_congr' fun other => not_congr (logged.records key later other)

-- The lookup through the latest version and the scan give one answer, which is the last
-- write not above the version that is read.
theorem getValueOption_history (hasher : TreeHasher K V R) (config : PruningConfig)
    (increasing : (versions ops).Pairwise (· < ·)) (unpruned : ∀ version ∈ versions ops, prunes config version = false)
    (key : K) (maxVersion : Nat) :
    let db := ((RocksDbStorage.new Db.empty config).run hasher ops).db
    db.getValueOption maxVersion key = newest (db.values key) maxVersion ∧
      (∀ value, db.getValueOption maxVersion key = some value ↔ LastWrote ops key maxVersion value) ∧
      (db.getValueOption maxVersion key = none ↔ ∀ stamp ≤ maxVersion, ∀ value, ¬Wrote ops key stamp value) := by
  intro db
  have scan : db.getValueOption maxVersion key = newest (db.values key) maxVersion :=
    run_newest increasing unpruned key maxVersion
  have logged : Logged ops ((RocksDbStorage.new Db.empty config).run hasher ops) := run_logged increasing unpruned
  refine ⟨scan,fun value => by rw [scan]; exact newest_lastWrote logged key maxVersion value,?_⟩
  rw [scan]
  constructor
  · intro nothing stamp below value wrote
    rcases newestAt_or_absent (db.values key) maxVersion with ⟨last,found⟩ | absent
    · have present := found.2.1
      rw [← newest_of_newestAt found,nothing] at present
      cases present
    · have found := (logged.records key stamp value).mpr wrote
      rw [show db.values key stamp = none from absent stamp below] at found
      cases found
  · intro unwritten
    refine newest_of_absent fun stamp below => ?_
    exact Option.eq_none_iff_forall_ne_some.mpr fun value found =>
      unwritten stamp below value ((logged.records key stamp value).mp found)

end Runs

theorem getValueOption_history_between :
    let hasher : TreeHasher Unit (fun _ => Nat) Nat := ⟨0,fun _ => 1⟩
    let ops : List (Op Unit fun _ => Nat) := [.set () 7,.commit 1,.set () 8,.commit 5]
    let db := ((RocksDbStorage.new Db.empty {}).run hasher ops).db
    db.latest () = some 5 ∧ db.getValueOption 4 () = some 7 ∧ LastWrote ops () 4 (7 : Nat) := by
  intro hasher ops db
  have increasing : (versions ops).Pairwise (· < ·) := by decide
  have unpruned : ∀ version ∈ versions ops, prunes {} version = false := by decide
  have read : db.getValueOption 4 () = some 7 := by decide +kernel
  exact ⟨by decide +kernel,read,((getValueOption_history hasher {} increasing unpruned () 4).2.1 _).mp read⟩

end Pranklin.Storage
