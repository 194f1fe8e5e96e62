import Pranklin.Borsh
import Pranklin.Executor

namespace Pranklin
open Borsh Borsh.Format

def u32 : Format Nat := word 4
def u64 : Format Nat := word 8
def u128 : Format Nat := word 16
def u256 : Format Nat := word 32
def b256 : Format Nat := raw 32

theorem Address.value_mk (n : Fin (2 ^ 160)) : (Address.mk n).value = n := rfl
theorem Address.mk_value (a : Address) : Address.mk a.value = a := rfl

def Address.format : Format Address :=
  ((raw 20).below (2 ^ 160)).via .mk Address.value Address.value_mk Address.mk_value

def signatureFormat : Format (BitVec 520) :=
  ((raw 65).below (2 ^ 520)).via .ofFin BitVec.toFin (fun _ => rfl) (fun _ => rfl)

def OrderType.tag : OrderType → Nat
  | .market => 0
  | .limit => 1
  | .stopMarket => 2
  | .stopLimit => 3
  | .takeProfitMarket => 4
  | .takeProfitLimit => 5

def OrderType.format : Format OrderType := enum OrderType.tag
  [only .market,only .limit,only .stopMarket,only .stopLimit,only .takeProfitMarket,only .takeProfitLimit] (by
  simp only [List.zipIdx_cons,List.zipIdx_nil,List.forall_mem_cons]
  refine ⟨?_,?_,?_,?_,?_,?_,List.forall_mem_nil _⟩
  all_goals
    intro b _ written
    rw [encode_only written]
    rfl)

def TimeInForce.tag : TimeInForce → Nat
  | .gtc => 0
  | .ioc => 1
  | .fok => 2
  | .postOnly => 3

def TimeInForce.format : Format TimeInForce := enum TimeInForce.tag
  [only .gtc,only .ioc,only .fok,only .postOnly] (by
  simp only [List.zipIdx_cons,List.zipIdx_nil,List.forall_mem_cons]
  refine ⟨?_,?_,?_,?_,List.forall_mem_nil _⟩
  all_goals
    intro b _ written
    rw [encode_only written]
    rfl)

def DepositTx.format : Format DepositTx :=
  (u128.pair u32).via (fun (amount,assetId) => ⟨amount,assetId⟩) (fun t => (t.amount,t.assetId)) (fun _ => rfl) (fun _ => rfl)

def WithdrawTx.format : Format WithdrawTx :=
  (u128.pair (u32.pair Address.format)).via (fun (amount,assetId,recipient) => ⟨amount,assetId,recipient⟩)
    (fun t => (t.amount,t.assetId,t.recipient)) (fun _ => rfl) (fun _ => rfl)

def PlaceOrderTx.format : Format PlaceOrderTx :=
  (u32.pair (boolean.pair (OrderType.format.pair (u64.pair (u64.pair (TimeInForce.format.pair
    (boolean.pair boolean))))))).iso
    (fun (marketId,isBuy,orderType,price,size,timeInForce,reduceOnly,postOnly) =>
      if words64 : price < 2 ^ 64 ∧ size < 2 ^ 64 then
        some ⟨marketId,isBuy,orderType,price,size,timeInForce,reduceOnly,postOnly,words64⟩
      else none)
    (fun t => some (t.marketId,t.isBuy,t.orderType,t.price,t.size,t.timeInForce,t.reduceOnly,t.postOnly))
    fun (marketId,isBuy,orderType,price,size,timeInForce,reduceOnly,postOnly) t => by
      constructor
      · intro made
        dsimp only at made
        split at made
        · cases made
          rfl
        · cases made
      · intro same
        cases same
        dsimp only
        rw [dif_pos t.words64]

def CancelOrderTx.format : Format CancelOrderTx := u64.via .mk CancelOrderTx.orderId (fun _ => rfl) (fun _ => rfl)

def ModifyOrderTx.format : Format ModifyOrderTx :=
  (u64.pair (u64.pair u64)).via (fun (orderId,newPrice,newSize) => ⟨orderId,newPrice,newSize⟩)
    (fun t => (t.orderId,t.newPrice,t.newSize)) (fun _ => rfl) (fun _ => rfl)

def ClosePositionTx.format : Format ClosePositionTx :=
  (u32.pair u64).via (fun (marketId,size) => ⟨marketId,size⟩) (fun t => (t.marketId,t.size)) (fun _ => rfl) (fun _ => rfl)

def SetAgentTx.format : Format SetAgentTx :=
  (Address.format.pair u64).via (fun (agent,permissions) => ⟨agent,permissions⟩) (fun t => (t.agent,t.permissions))
    (fun _ => rfl) (fun _ => rfl)

def RemoveAgentTx.format : Format RemoveAgentTx :=
  Address.format.via .mk RemoveAgentTx.agent (fun _ => rfl) (fun _ => rfl)

def TransferTx.format : Format TransferTx :=
  (Address.format.pair (u128.pair u32)).via (fun (recipient,amount,assetId) => ⟨recipient,amount,assetId⟩)
    (fun t => (t.recipient,t.amount,t.assetId)) (fun _ => rfl) (fun _ => rfl)

def BridgeDepositTx.format : Format BridgeDepositTx :=
  (Address.format.pair (u128.pair (u32.pair b256))).via
    (fun (user,amount,assetId,externalTxHash) => ⟨user,amount,assetId,externalTxHash⟩)
    (fun t => (t.user,t.amount,t.assetId,t.externalTxHash)) (fun _ => rfl) (fun _ => rfl)

def BridgeWithdrawTx.format : Format BridgeWithdrawTx :=
  (Address.format.pair (u128.pair (u32.pair (Address.format.pair b256)))).via
    (fun (user,amount,assetId,destination,externalTxHash) => ⟨user,amount,assetId,destination,externalTxHash⟩)
    (fun t => (t.user,t.amount,t.assetId,t.destination,t.externalTxHash)) (fun _ => rfl) (fun _ => rfl)

namespace TxPayload

def tag : TxPayload → Nat
  | .deposit _ => 0
  | .withdraw _ => 1
  | .placeOrder _ => 2
  | .cancelOrder _ => 3
  | .modifyOrder _ => 4
  | .closePosition _ => 5
  | .setAgent _ => 6
  | .removeAgent _ => 7
  | .transfer _ => 8
  | .bridgeDeposit _ => 9
  | .bridgeWithdraw _ => 10

def asDeposit : TxPayload → Option DepositTx
  | .deposit inner => some inner
  | _ => none

def asWithdraw : TxPayload → Option WithdrawTx
  | .withdraw inner => some inner
  | _ => none

def asPlaceOrder : TxPayload → Option PlaceOrderTx
  | .placeOrder inner => some inner
  | _ => none

def asCancelOrder : TxPayload → Option CancelOrderTx
  | .cancelOrder inner => some inner
  | _ => none

def asModifyOrder : TxPayload → Option ModifyOrderTx
  | .modifyOrder inner => some inner
  | _ => none

def asClosePosition : TxPayload → Option ClosePositionTx
  | .closePosition inner => some inner
  | _ => none

def asSetAgent : TxPayload → Option SetAgentTx
  | .setAgent inner => some inner
  | _ => none

def asRemoveAgent : TxPayload → Option RemoveAgentTx
  | .removeAgent inner => some inner
  | _ => none

def asTransfer : TxPayload → Option TransferTx
  | .transfer inner => some inner
  | _ => none

def asBridgeDeposit : TxPayload → Option BridgeDepositTx
  | .bridgeDeposit inner => some inner
  | _ => none

def asBridgeWithdraw : TxPayload → Option BridgeWithdrawTx
  | .bridgeWithdraw inner => some inner
  | _ => none

def variants : List (Format TxPayload) :=
  [DepositTx.format.variant .deposit asDeposit (by rintro _ (_ | _) <;> simp [asDeposit,eq_comm]),
    WithdrawTx.format.variant .withdraw asWithdraw (by rintro _ (_ | _) <;> simp [asWithdraw,eq_comm]),
    PlaceOrderTx.format.variant .placeOrder asPlaceOrder (by rintro _ (_ | _) <;> simp [asPlaceOrder,eq_comm]),
    CancelOrderTx.format.variant .cancelOrder asCancelOrder (by rintro _ (_ | _) <;> simp [asCancelOrder,eq_comm]),
    ModifyOrderTx.format.variant .modifyOrder asModifyOrder (by rintro _ (_ | _) <;> simp [asModifyOrder,eq_comm]),
    ClosePositionTx.format.variant .closePosition asClosePosition (by rintro _ (_ | _) <;> simp [asClosePosition,eq_comm]),
    SetAgentTx.format.variant .setAgent asSetAgent (by rintro _ (_ | _) <;> simp [asSetAgent,eq_comm]),
    RemoveAgentTx.format.variant .removeAgent asRemoveAgent (by rintro _ (_ | _) <;> simp [asRemoveAgent,eq_comm]),
    TransferTx.format.variant .transfer asTransfer (by rintro _ (_ | _) <;> simp [asTransfer,eq_comm]),
    BridgeDepositTx.format.variant .bridgeDeposit asBridgeDeposit (by rintro _ (_ | _) <;> simp [asBridgeDeposit,eq_comm]),
    BridgeWithdrawTx.format.variant .bridgeWithdraw asBridgeWithdraw
      (by rintro _ (_ | _) <;> simp [asBridgeWithdraw,eq_comm])]

theorem variants_tagged :
    ∀ entry ∈ variants.zipIdx, ∀ payload data, entry.1.encode payload = some data → payload.tag = entry.2 := by
  unfold variants
  simp only [List.zipIdx_cons,List.zipIdx_nil,List.forall_mem_cons]
  refine ⟨?_,?_,?_,?_,?_,?_,?_,?_,?_,?_,?_,List.forall_mem_nil _⟩
  all_goals
    intro payload _ written
    obtain ⟨_,known⟩ := encode_iso written
    cases payload <;> first | rfl | cases known

def format : Format TxPayload := enum tag variants variants_tagged

end TxPayload

def TypedDataDomain.format : Format TypedDataDomain :=
  (text.pair (text.pair (u256.pair (option Address.format)))).via
    (fun (name,version,chainId,verifyingContract) => ⟨name,version,chainId,verifyingContract⟩)
    (fun d => (d.name,d.version,d.chainId,d.verifyingContract)) (fun _ => rfl) (fun _ => rfl)

namespace TxSignature

def tag : TxSignature → Nat
  | .eip712 _ _ => 0
  | .rawBorsh _ => 1

def asEip712 : TxSignature → Option (TypedDataDomain × BitVec 520)
  | .eip712 domain signature => some (domain,signature)
  | _ => none

def asRawBorsh : TxSignature → Option (BitVec 520)
  | .rawBorsh signature => some signature
  | _ => none

def variants : List (Format TxSignature) :=
  [(TypedDataDomain.format.pair signatureFormat).variant (fun (domain,signature) => .eip712 domain signature) asEip712
      (by rintro ⟨_,_⟩ (_ | _) <;> simp [asEip712,eq_comm]),
    signatureFormat.variant .rawBorsh asRawBorsh (by rintro _ (_ | _) <;> simp [asRawBorsh,eq_comm])]

theorem variants_tagged :
    ∀ entry ∈ variants.zipIdx, ∀ signature data, entry.1.encode signature = some data → signature.tag = entry.2 := by
  unfold variants
  simp only [List.zipIdx_cons,List.zipIdx_nil,List.forall_mem_cons]
  refine ⟨?_,?_,List.forall_mem_nil _⟩
  all_goals
    intro signature _ written
    obtain ⟨_,known⟩ := encode_iso written
    cases signature <;> first | rfl | cases known

def format : Format TxSignature := enum tag variants variants_tagged

end TxSignature

namespace Transaction

def format : Format Transaction :=
  (u64.pair (Address.format.pair (TxPayload.format.pair TxSignature.format))).via
    (fun (nonce,sender,payload,signature) => ⟨nonce,sender,payload,signature⟩)
    (fun t => (t.nonce,t.sender,t.payload,t.signature)) (fun _ => rfl) (fun _ => rfl)

-- None is the panic of `expect` on a string whose length does not fit into four bytes.
def encode (tx : Transaction) : Option (List UInt8) := format.encode tx

end Transaction

-- The codec with borsh; the text of its errors is the library's.
def Codec.borsh (message : List UInt8 → String) (recoverAddress : Transaction → Except String Address) : Codec where
  fromSlice data :=
    match Transaction.format.fromSlice data with
    | some tx => .ok tx
    | none => .error (message data)
  recoverAddress := recoverAddress

section Fits

def TxPayload.Fits : TxPayload → Prop
  | .deposit t => t.amount < 2 ^ 128 ∧ t.assetId < 2 ^ 32
  | .withdraw t => t.amount < 2 ^ 128 ∧ t.assetId < 2 ^ 32
  | .placeOrder t => t.marketId < 2 ^ 32
  | .cancelOrder t => t.orderId < 2 ^ 64
  | .modifyOrder t => t.orderId < 2 ^ 64 ∧ t.newPrice < 2 ^ 64 ∧ t.newSize < 2 ^ 64
  | .closePosition t => t.marketId < 2 ^ 32 ∧ t.size < 2 ^ 64
  | .setAgent t => t.permissions < 2 ^ 64
  | .removeAgent _ => True
  | .transfer t => t.amount < 2 ^ 128 ∧ t.assetId < 2 ^ 32
  | .bridgeDeposit t => t.amount < 2 ^ 128 ∧ t.assetId < 2 ^ 32 ∧ t.externalTxHash < 2 ^ 256
  | .bridgeWithdraw t => t.amount < 2 ^ 128 ∧ t.assetId < 2 ^ 32 ∧ t.externalTxHash < 2 ^ 256

def TxSignature.Fits : TxSignature → Prop
  | .eip712 domain _ => domain.chainId < 2 ^ 256 ∧ domain.name.toUTF8.data.toList.length < 2 ^ 32 ∧
    domain.version.toUTF8.data.toList.length < 2 ^ 32
  | .rawBorsh _ => True

structure Transaction.Fits (tx : Transaction) : Prop where
  nonce : tx.nonce < 2 ^ 64
  payload : tx.payload.Fits
  signature : tx.signature.Fits

theorem writes_u32 {n : Nat} : u32.Writes n ↔ n < 2 ^ 32 := writes_word
theorem writes_u64 {n : Nat} : u64.Writes n ↔ n < 2 ^ 64 := writes_word
theorem writes_u128 {n : Nat} : u128.Writes n ↔ n < 2 ^ 128 := writes_word
theorem writes_u256 {n : Nat} : u256.Writes n ↔ n < 2 ^ 256 := writes_word
theorem writes_b256 {n : Nat} : b256.Writes n ↔ n < 2 ^ 256 := writes_raw

theorem writes_address (a : Address) : Address.format.Writes a :=
  writes_via.mpr (writes_below.mpr (writes_raw.mpr a.value.isLt))

theorem lt_bytes (whole : bits = 8 * n) (word : BitVec bits) : word.toFin.val < 256 ^ n := by
  subst whole
  exact Nat.lt_of_lt_of_eq word.isLt (Nat.pow_mul 2 8 n)

theorem writes_signature (signature : BitVec 520) : signatureFormat.Writes signature :=
  writes_via.mpr (writes_below.mpr (writes_raw.mpr (lt_bytes (n:=65) rfl signature)))

theorem writes_orderType (t : OrderType) : OrderType.format.Writes t := by
  cases t <;> exact (writes_enum rfl (by decide)).mpr (writes_only _)

theorem writes_timeInForce (t : TimeInForce) : TimeInForce.format.Writes t := by
  cases t <;> exact (writes_enum rfl (by decide)).mpr (writes_only _)

theorem writes_placeOrder (t : PlaceOrderTx) : PlaceOrderTx.format.Writes t ↔ t.marketId < 2 ^ 32 := by
  unfold PlaceOrderTx.format
  rw [writes_total]
  simp only [writes_pair,writes_u32,writes_u64,writes_boolean,writes_orderType,writes_timeInForce,t.words64.1,t.words64.2,
    and_self,and_true]

theorem writes_payload (payload : TxPayload) : TxPayload.format.Writes payload ↔ payload.Fits := by
  unfold TxPayload.format
  cases payload
  all_goals
    rw [writes_enum rfl (by simp [TxPayload.tag]),writes_variant]
    simp only [TxPayload.asDeposit,TxPayload.asWithdraw,TxPayload.asPlaceOrder,TxPayload.asCancelOrder,
      TxPayload.asModifyOrder,TxPayload.asClosePosition,TxPayload.asSetAgent,TxPayload.asRemoveAgent,TxPayload.asTransfer,
      TxPayload.asBridgeDeposit,TxPayload.asBridgeWithdraw,DepositTx.format,WithdrawTx.format,CancelOrderTx.format,
      ModifyOrderTx.format,ClosePositionTx.format,SetAgentTx.format,RemoveAgentTx.format,TransferTx.format,
      BridgeDepositTx.format,BridgeWithdrawTx.format,writes_via,writes_pair,writes_u128,writes_u64,writes_u32,writes_b256,
      writes_address,writes_placeOrder,Option.some.injEq,exists_eq_left',TxPayload.Fits,exists_eq',and_true,true_and]

theorem writes_txSignature (signature : TxSignature) : TxSignature.format.Writes signature ↔ signature.Fits := by
  unfold TxSignature.format
  cases signature with
  | eip712 domain signature =>
    rw [writes_enum rfl (by simp [TxSignature.tag]),writes_variant]
    simp only [TxSignature.asEip712,TypedDataDomain.format,writes_via,writes_pair,writes_text,writes_u256,writes_option,
      writes_address,writes_signature,Option.some.injEq,exists_eq_left',TxSignature.Fits,implies_true,and_true]
    tauto
  | rawBorsh signature =>
    rw [writes_enum rfl (by simp [TxSignature.tag]),writes_variant]
    simp only [TxSignature.asRawBorsh,writes_signature,Option.some.injEq,exists_eq_left',TxSignature.Fits]

theorem encode_isSome_iff (tx : Transaction) : tx.encode.isSome ↔ tx.Fits := by
  change Transaction.format.Writes tx ↔ _
  unfold Transaction.format
  simp only [writes_via,writes_pair,writes_u64,writes_address,writes_payload,writes_txSignature,true_and]
  exact ⟨fun both => ⟨both.1,both.2.1,both.2.2⟩,fun fits => ⟨fits.nonce,fits.payload,fits.signature⟩⟩

end Fits

def Transaction.hash (sha256 : List UInt8 → B256) (tx : Transaction) : Option B256 := tx.encode.map sha256

section Canonical
variable {message : List UInt8 → String} {recoverAddress : Transaction → Except String Address} {data : List UInt8}
  {tx : Transaction}

theorem decode_large (large : maxTxSize < data.length) :
    ∃ error, Transaction.decode (.borsh message recoverAddress) data = .error error := by
  unfold Transaction.decode
  rw [if_pos large]
  exact ⟨_,rfl⟩

theorem decode_eq_ok :
    Transaction.decode (.borsh message recoverAddress) data = .ok tx ↔
      data.length ≤ maxTxSize ∧ tx.encode = some data := by
  unfold Transaction.decode Transaction.encode
  by_cases large : maxTxSize < data.length
  · rw [if_pos large]
    exact iff_of_false (by simp) fun both => Nat.not_le.mpr large both.1
  · rw [if_neg large,← fromSlice_iff]
    change Except.mapError _ (match Transaction.format.fromSlice data with
      | some tx => .ok tx
      | none => .error (message data)) = _ ↔ _
    cases Transaction.format.fromSlice data with
    | none => exact iff_of_false (by simp [Except.mapError]) fun both => by cases both.2
    | some other => simp [Except.mapError,Nat.not_lt.mp large]

-- The encoding of a transaction is read back as that transaction while it is not too large,
-- and whatever is read was written so; encoding and digest identify the transaction.
theorem transaction_codec (message : List UInt8 → String) (recoverAddress : Transaction → Except String Address) :
    (∀ tx data, Transaction.encode tx = some data →
        (data.length ≤ maxTxSize → Transaction.decode (.borsh message recoverAddress) data = .ok tx) ∧
          (maxTxSize < data.length → ∃ error, Transaction.decode (.borsh message recoverAddress) data = .error error)) ∧
      (∀ tx, (Transaction.encode tx).isSome ↔ tx.Fits) ∧
      (∀ data tx, Transaction.decode (.borsh message recoverAddress) data = .ok tx → tx.encode = some data) ∧
      (∀ data other tx, Transaction.decode (.borsh message recoverAddress) data = .ok tx →
        Transaction.decode (.borsh message recoverAddress) other = .ok tx → data = other) ∧
      ∀ sha256 : List UInt8 → B256, ∀ tx other data back, Transaction.encode tx = some data →
        Transaction.encode other = some back → (sha256 data = sha256 back → data = back) →
        tx.hash sha256 = other.hash sha256 → tx = other := by
  refine ⟨?_,encode_isSome_iff,?_,?_,?_⟩
  · intro tx data written
    exact ⟨fun short => decode_eq_ok.mpr ⟨short,written⟩,decode_large⟩
  · intro data tx read
    exact (decode_eq_ok.mp read).2
  · intro data other tx read again
    have written := (decode_eq_ok.mp read).2
    rw [(decode_eq_ok.mp again).2] at written
    exact (Option.some.inj written).symm
  · intro sha256 tx other data back one two apart same
    unfold Transaction.hash at same
    rw [one,two] at same
    have equal := apart (Option.some.inj same)
    exact Transaction.format.encode_inj one (equal ▸ two)

def signedWithdrawal : Transaction := ⟨7,Bench.alice,.withdraw ⟨5,0,Bench.bob⟩,.eip712 {} 0⟩

theorem transaction_codec_withdrawal :
    ∃ data, signedWithdrawal.encode = some data ∧ data.length ≤ maxTxSize ∧
      Transaction.decode (.borsh (fun _ => "") fun _ => .error "") data = .ok signedWithdrawal := by
  have sized : signedWithdrawal.encode.map List.length = some 185 := by decide +kernel
  obtain ⟨data,written,length⟩ := Option.map_eq_some_iff.mp sized
  have short : data.length ≤ maxTxSize := by rw [length]; decide
  exact ⟨data,written,short,((transaction_codec _ _).1 signedWithdrawal data written).1 short⟩

end Canonical

namespace Bench

def trusting : Codec := .borsh (fun _ => "Unexpected length of input") fun tx => .ok tx.sender

-- Only the kernel is to run the encoder.
@[irreducible] def written (tx : Transaction) : List UInt8 := tx.encode.getD []

theorem decode_written {tx : Transaction} (writes : tx.encode.isSome) (short : (written tx).length ≤ maxTxSize) :
    Transaction.decode trusting (written tx) = .ok tx := by
  refine decode_eq_ok.mpr ⟨short,?_⟩
  obtain ⟨data,encoded⟩ := Option.isSome_iff_exists.mp writes
  rw [written,encoded,Option.getD_some]

theorem executeBytes_written {tx : Transaction} (writes : tx.encode.isSome) (short : (written tx).length ≤ maxTxSize) :
    TransactionExecutor.executeBytes trusting (written tx) = TransactionExecutor.execute trusting tx := by
  rw [TransactionExecutor.executeBytes,decode_written writes short]
  rfl

end Bench
end Pranklin
