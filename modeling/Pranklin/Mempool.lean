import Mathlib.Data.List.AList
import Mathlib.Data.List.Sort
import Pranklin.Executor

namespace Pranklin

-- The two maps of the pool. A hash map has no order of its own; the order of the list
-- stands for one it may be walked in.
structure TransactionIndex where
  txs : AList fun _ : B256 => Transaction
  bySender : AList fun _ : Address => AList fun _ : Nat => B256

namespace TransactionIndex

def new : TransactionIndex := ⟨∅,∅⟩

-- A nonce map is walked in the order of the nonces.
def ascendingNonces (nonces : AList fun _ : Nat => B256) : List Nat := nonces.keys.insertionSort (· ≤ ·)

def insert (hash : Transaction → B256) (index : TransactionIndex) (tx : Transaction) : TransactionIndex :=
  {txs:=index.txs.insert (hash tx) tx
   bySender:=index.bySender.insert tx.sender
    (((index.bySender.lookup tx.sender).getD ∅).insert tx.nonce (hash tx))}

def putNonces (index : TransactionIndex) (sender : Address) (nonces : AList fun _ : Nat => B256) : TransactionIndex :=
  {index with bySender:=
    if nonces.keys.isEmpty then index.bySender.erase sender else index.bySender.insert sender nonces}

def remove (index : TransactionIndex) (txHash : B256) : Option Transaction × TransactionIndex :=
  match index.txs.lookup txHash with
  | none => (none,index)
  | some tx =>
    let rest := {index with txs:=index.txs.erase txHash}
    match index.bySender.lookup tx.sender with
    | none => (some tx,rest)
    | some nonces => (some tx,rest.putNonces tx.sender (nonces.erase tx.nonce))

def get (index : TransactionIndex) (txHash : B256) : Option Transaction := index.txs.lookup txHash
def contains (index : TransactionIndex) (txHash : B256) : Bool := (index.txs.lookup txHash).isSome
def len (index : TransactionIndex) : Nat := index.txs.keys.length

def getBySender (index : TransactionIndex) (sender : Address) : List Transaction :=
  match index.bySender.lookup sender with
  | none => []
  | some nonces => (ascendingNonces nonces).filterMap fun nonce => (nonces.lookup nonce).bind index.get

def senderTxCount (index : TransactionIndex) (sender : Address) : Nat :=
  ((index.bySender.lookup sender).map fun nonces => nonces.keys.length).getD 0

def hasNonce (index : TransactionIndex) (sender : Address) (nonce : Nat) : Bool :=
  ((index.bySender.lookup sender).bind (·.lookup nonce)).isSome

def getAllSenders (index : TransactionIndex) : List Address := index.bySender.keys

def drain (nonces : AList fun _ : Nat => B256) (txs : AList fun _ : B256 => Transaction) :
    List Nat → List (B256 × Transaction) × (AList fun _ : Nat => B256) × AList fun _ : B256 => Transaction
  | [] => ([],nonces,txs)
  | nonce :: rest =>
    match nonces.lookup nonce with
    | none => drain nonces txs rest
    | some hash =>
      match txs.lookup hash with
      | none => drain (nonces.erase nonce) txs rest
      | some tx =>
        let (removed,left) := drain (nonces.erase nonce) (txs.erase hash) rest
        ((hash,tx) :: removed,left)

def removeUpToNonce (index : TransactionIndex) (sender : Address) (nonce : Nat) :
    List (B256 × Transaction) × TransactionIndex :=
  match index.bySender.lookup sender with
  | none => ([],index)
  | some nonces =>
    let (removed,nonces,txs) := drain nonces index.txs ((ascendingNonces nonces).filter (· ≤ nonce))
    (removed,{index with txs:=txs}.putNonces sender nonces)

end TransactionIndex

structure MempoolConfig where
  maxSize : Nat := 10000
  maxTxsPerSender : Nat := 100
deriving DecidableEq

inductive MempoolError where
  | mempoolFull (capacity : Nat)
  | duplicateTransaction (txHash : B256)
  | rateLimitExceeded (sender : Address) (current max : Nat)
deriving DecidableEq

structure Mempool where
  index : TransactionIndex
  config : MempoolConfig

namespace Mempool

def new (config : MempoolConfig) : Mempool := ⟨.new,config⟩
def isFull (pool : Mempool) : Bool := pool.config.maxSize ≤ pool.index.len
def get (pool : Mempool) (txHash : B256) : Option Transaction := pool.index.get txHash
def len (pool : Mempool) : Nat := pool.index.len

def validateCapacity (pool : Mempool) : Except MempoolError Unit :=
  if pool.isFull then .error (.mempoolFull pool.config.maxSize) else .ok ()

def validateNotDuplicate (pool : Mempool) (txHash : B256) : Except MempoolError Unit :=
  if pool.index.contains txHash then .error (.duplicateTransaction txHash) else .ok ()

def validateSenderRateLimit (pool : Mempool) (sender : Address) : Except MempoolError Unit :=
  let count := pool.index.senderTxCount sender
  if pool.config.maxTxsPerSender ≤ count then .error (.rateLimitExceeded sender count pool.config.maxTxsPerSender)
  else .ok ()

def validate (hash : Transaction → B256) (pool : Mempool) (tx : Transaction) : Except MempoolError Unit := do
  pool.validateCapacity
  pool.validateNotDuplicate (hash tx)
  pool.validateSenderRateLimit tx.sender

def add (hash : Transaction → B256) (pool : Mempool) (tx : Transaction) : Except MempoolError B256 × Mempool :=
  match pool.validate hash tx with
  | .error error => (.error error,pool)
  | .ok _ => (.ok (hash tx),{pool with index:=pool.index.insert hash tx})

def addBatch (hash : Transaction → B256) (pool : Mempool) : List Transaction → List (Except MempoolError B256) × Mempool
  | [] => ([],pool)
  | tx :: txs =>
    let (result,pool) := pool.add hash tx
    let (results,pool) := addBatch hash pool txs
    (result :: results,pool)

def remove (pool : Mempool) (txHash : B256) : Option Transaction × Mempool :=
  let (removed,index) := pool.index.remove txHash
  (removed,{pool with index:=index})

def pruneSenderNonces (pool : Mempool) (sender : Address) (upToNonce : Nat) : List B256 × Mempool :=
  let (removed,index) := pool.index.removeUpToNonce sender upToNonce
  (removed.map (·.1),{pool with index:=index})

def clear (pool : Mempool) : Mempool := {pool with index:=.new}

def readyTxs (pool : Mempool) (limit : Nat) : List Transaction :=
  (pool.index.getAllSenders.flatMap pool.index.getBySender).take limit

end Mempool

inductive MempoolCall where
  | add (tx : Transaction)
  | addBatch (txs : List Transaction)
  | remove (txHash : B256)
  | pruneSenderNonces (sender : Address) (upToNonce : Nat)
  | clear

def MempoolCall.after (hash : Transaction → B256) (pool : Mempool) : MempoolCall → Mempool
  | .add tx => (pool.add hash tx).2
  | .addBatch txs => (pool.addBatch hash txs).2
  | .remove txHash => (pool.remove txHash).2
  | .pruneSenderNonces sender upToNonce => (pool.pruneSenderNonces sender upToNonce).2
  | .clear => pool.clear

end Pranklin
