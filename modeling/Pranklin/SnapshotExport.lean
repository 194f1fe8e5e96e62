import Pranklin.Restart

namespace Pranklin
open Words Storage

-- The destination is left out: nothing depends on it but where the files go.
structure SnapshotExporterConfig where
  autoExportInterval : Nat
  chainId : String
  word64 : autoExportInterval < 2 ^ 64

structure SnapshotMetadata where
  height : Nat
  stateRoot : B256
  timestamp : Nat
  dbSize : Nat
  snapshotSize : Nat
  chainId : String

structure ExportFiles where
  timestamp : Nat
  dbSize : Nat
  snapshotSize : Nat

structure SnapshotExporter where
  config : SnapshotExporterConfig
  lastExportHeight : Nat

namespace SnapshotExporter

def new (config : SnapshotExporterConfig) : SnapshotExporter := ⟨config,0⟩

def shouldExport (exporter : SnapshotExporter) (height : Nat) : Bool :=
  if exporter.config.autoExportInterval = 0 then false
  else decide (0 < height) && decide (addWrap 64 exporter.lastExportHeight exporter.config.autoExportInterval ≤ height)

def exportSnapshot (hasher : TreeHasher StateKey StateKey.Value B256) (exporter : SnapshotExporter) (storage : StateStorage)
    (outcome : Except StateError ExportFiles) (height : Nat) : Except StateError SnapshotMetadata × SnapshotExporter :=
  match outcome with
  | .ok files =>
    (.ok ⟨height,storage.getRoot hasher height,files.timestamp,files.dbSize,files.snapshotSize,exporter.config.chainId⟩,
      {exporter with lastExportHeight:=height})
  | .error error => (.error error,exporter)

end SnapshotExporter

structure ExecutorService where
  node : Node
  snapshotExporter : Option SnapshotExporter

namespace ExecutorService

def new (db : Db StateKey StateKey.Value B256) (hashOrder : HashOrder) (snapshotConfig : Option SnapshotExporterConfig) :
    ExecutorService := ⟨Node.reopen db hashOrder,snapshotConfig.map SnapshotExporter.new⟩

-- The export runs on a clone of the exporter, which is dropped with its task. The result
-- is only logged; what is reported here is whether an export was started, and with what result.
def handleSnapshotExport (hasher : TreeHasher StateKey StateKey.Value B256) (outcome : Except StateError ExportFiles)
    (service : ExecutorService) (blockHeight : Nat) : Option (Except StateError SnapshotMetadata) × ExecutorService :=
  match service.snapshotExporter with
  | some exporter =>
    if exporter.shouldExport blockHeight then
      let (result,_) := exporter.exportSnapshot hasher service.node.engine.state.storage outcome blockHeight
      (some result,service)
    else (none,service)
  | none => (none,service)

def executeTxs (hasher : TreeHasher StateKey StateKey.Value B256) (codec : Codec) (outcome : Except StateError ExportFiles)
    (service : ExecutorService) (block : Block) : Option (Except StateError SnapshotMetadata) × ExecutorService :=
  handleSnapshotExport hasher outcome {service with node:=(service.node.executeTxs hasher codec block).2} block.height

def exports (hasher : TreeHasher StateKey StateKey.Value B256) (codec : Codec)
    (outcomes : Nat → Except StateError ExportFiles) : ExecutorService → List Block → List Nat
  | _,[] => []
  | service,block :: later =>
    let (started,after) := service.executeTxs hasher codec (outcomes block.height) block
    (if started.isSome then [block.height] else []) ++ exports hasher codec outcomes after later

end ExecutorService

namespace SnapshotExport
variable {hasher : TreeHasher StateKey StateKey.Value B256} {codec : Codec} {config : SnapshotExporterConfig}
  {outcomes : Nat → Except StateError ExportFiles} {service : ExecutorService}

-- The service keeps the exporter it was made with, so that its schedule never advances.
def Unadvanced (config : SnapshotExporterConfig) (service : ExecutorService) : Prop :=
  service.snapshotExporter = some (.new config)

theorem shouldExport_new (paced : 0 < config.autoExportInterval) (height : Nat) :
    (SnapshotExporter.new config).shouldExport height = decide (config.autoExportInterval ≤ height) := by
  have same : addWrap 64 0 config.autoExportInterval = config.autoExportInterval := by
    rw [addWrap_of_lt ((Nat.zero_add _).symm ▸ config.word64),Nat.zero_add]
  rw [SnapshotExporter.shouldExport,SnapshotExporter.new,if_neg (Nat.ne_of_gt paced),same]
  by_cases far : config.autoExportInterval ≤ height
  · rw [decide_eq_true far,decide_eq_true (Nat.lt_of_lt_of_le paced far)]
    rfl
  · rw [decide_eq_false far,Bool.and_false]

theorem executeTxs_unadvanced (hasher : TreeHasher StateKey StateKey.Value B256) (codec : Codec)
    (outcome : Except StateError ExportFiles) (unadvanced : Unadvanced config service) (block : Block) :
    Unadvanced config (service.executeTxs hasher codec outcome block).2 ∧
      (service.executeTxs hasher codec outcome block).1.isSome = (SnapshotExporter.new config).shouldExport block.height := by
  unfold Unadvanced at unadvanced ⊢
  rw [ExecutorService.executeTxs,ExecutorService.handleSnapshotExport]
  dsimp only
  rw [unadvanced]
  dsimp only
  split
  · rename_i due
    exact ⟨rfl,due.symm⟩
  · rename_i early
    exact ⟨rfl,(Bool.eq_false_of_not_eq_true early).symm⟩

theorem exports_eq (paced : 0 < config.autoExportInterval) (blocks : List Block) (service : ExecutorService)
    (unadvanced : Unadvanced config service) : service.exports hasher codec outcomes blocks =
      (blocks.map Block.height).filter (config.autoExportInterval ≤ ·) := by
  induction blocks generalizing service with
  | nil => rfl
  | cons block later ih =>
    obtain ⟨kept,started⟩ := executeTxs_unadvanced hasher codec (outcomes block.height) unadvanced block
    rw [ExecutorService.exports]
    dsimp only
    rw [ih _ kept,started,shouldExport_new paced,List.map_cons,List.filter_cons]
    split <;> rfl

theorem exports_apart_iff (paced : 0 < config.autoExportInterval) (db : Db StateKey StateKey.Value B256)
    (hashOrder : HashOrder) (blocks : List Block) (ascending : (blocks.map Block.height).Pairwise (· < ·)) :
    ((ExecutorService.new db hashOrder (some config)).exports hasher codec outcomes blocks).Pairwise
        (fun earlier later => earlier + config.autoExportInterval ≤ later) ↔
      (blocks.map Block.height).Pairwise fun earlier later =>
        config.autoExportInterval ≤ earlier → earlier + config.autoExportInterval ≤ later := by
  have made : Unadvanced config (ExecutorService.new db hashOrder (some config)) := rfl
  rw [exports_eq paced blocks _ made,List.pairwise_filter]
  simp only [decide_eq_true_eq]
  constructor
  · intro apart
    refine (ascending.and apart).imp fun both far => both.2 far ?_
    exact Nat.le_trans far (Nat.le_of_lt both.1)
  · intro apart
    exact apart.imp fun far earlier _ => far earlier

def everyTen : SnapshotExporterConfig := ⟨10,"pranklin",by decide⟩

def succeeding : Nat → Except StateError ExportFiles := fun _ => .ok ⟨0,1,1⟩

def twoBlocks : List Block := [⟨10,[]⟩,⟨11,[]⟩]

theorem exports_in_a_row :
    (ExecutorService.new .empty .keep (some everyTen)).exports Replicas.flatHasher Bench.trusting succeeding twoBlocks = [10,11] ∧
      ¬([10,11] : List Nat).Pairwise fun earlier later => earlier + everyTen.autoExportInterval ≤ later := by
  have made : Unadvanced everyTen (ExecutorService.new .empty .keep (some everyTen)) := rfl
  refine ⟨?_,by decide⟩
  rw [exports_eq (by decide) twoBlocks _ made]
  rfl

theorem exports_apart_iff_on_bench :
    ((ExecutorService.new .empty .keep (some everyTen)).exports Replicas.flatHasher Bench.trusting succeeding twoBlocks).Pairwise
        (fun earlier later => earlier + everyTen.autoExportInterval ≤ later) ↔
      (twoBlocks.map Block.height).Pairwise fun earlier later =>
        everyTen.autoExportInterval ≤ earlier → earlier + everyTen.autoExportInterval ≤ later :=
  exports_apart_iff (by decide) .empty .keep twoBlocks (by decide)

end SnapshotExport
end Pranklin
