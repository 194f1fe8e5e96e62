import Pranklin.TxSigning
import Pranklin.TypedData

namespace Pranklin
open Borsh TypedData

-- The members of the type string that a payload is signed under, in the order of the string, with what the
-- transaction has for each of their names.
def TxPayload.struct (payload : TxPayload) (nonce : Nat) (sender : Address) : Option Struct :=
  let nonce : Member := ⟨.uint 64,"nonce",.uint nonce⟩
  let sender : Member := ⟨.address,"from",.address sender.bytes⟩
  match payload with
  | .deposit d => some ⟨"Deposit",[nonce,sender,⟨.uint 128,"amount",.uint d.amount⟩,⟨.uint 32,"assetId",.uint d.assetId⟩]⟩
  | .withdraw w => some ⟨"Withdraw",[nonce,sender,⟨.uint 128,"amount",.uint w.amount⟩,
      ⟨.uint 32,"assetId",.uint w.assetId⟩,⟨.address,"to",.address w.recipient.bytes⟩]⟩
  | .placeOrder o => some ⟨"PlaceOrder",[nonce,sender,⟨.uint 32,"marketId",.uint o.marketId⟩,⟨.bool,"isBuy",.bool o.isBuy⟩,
      ⟨.uint 8,"orderType",.uint o.orderType.tag⟩,⟨.uint 64,"price",.uint o.price⟩,⟨.uint 64,"size",.uint o.size⟩,
      ⟨.uint 8,"timeInForce",.uint o.timeInForce.tag⟩,⟨.bool,"reduceOnly",.bool o.reduceOnly⟩,
      ⟨.bool,"postOnly",.bool o.postOnly⟩]⟩
  | .cancelOrder c => some ⟨"CancelOrder",[nonce,sender,⟨.uint 64,"orderId",.uint c.orderId⟩]⟩
  | .transfer t => some ⟨"Transfer",[nonce,sender,⟨.address,"to",.address t.recipient.bytes⟩,
      ⟨.uint 128,"amount",.uint t.amount⟩,⟨.uint 32,"assetId",.uint t.assetId⟩]⟩
  | _ => none

namespace WalletHash
variable {keccak256 : List UInt8 → B256} {tx : Transaction} {domain : TypedDataDomain} {struct : Struct}

theorem struct_isSome_iff (payload : TxPayload) (nonce : Nat) (sender : Address) :
    (payload.struct nonce sender).isSome ↔ payload.eip712Type ≠ .generic := by
  cases payload <;> simp [TxPayload.struct,TxPayload.eip712Type]

theorem struct_encodeType (structured : tx.payload.struct tx.nonce tx.sender = some struct) :
    struct.encodeType = tx.payload.eip712Type.text := by
  revert structured
  cases tx.payload
  case deposit | withdraw | placeOrder | cancelOrder | transfer =>
    intro structured
    cases structured
    simp only [Struct.encodeType,List.map_cons,List.map_nil,TxPayload.eip712Type]
    decide +kernel
  all_goals
    intro structured
    cases structured

theorem struct_encodeData (keccak256 : List UInt8 → B256) (structured : tx.payload.struct tx.nonce tx.sender = some struct) :
    tx.payload.eip712Data keccak256 tx.nonce tx.sender = some struct.encodeData := by
  revert structured
  cases tx.payload
  all_goals
    intro structured
    cases structured
  all_goals rfl

theorem struct_several (structured : tx.payload.struct tx.nonce tx.sender = some struct) : struct.members.length ≠ 1 := by
  revert structured
  cases tx.payload
  all_goals
    intro structured
    cases structured
  all_goals simp

theorem struct_typed (nonce : tx.nonce < 2 ^ 64) (fits : tx.payload.Fits)
    (structured : tx.payload.struct tx.nonce tx.sender = some struct) : struct.Typed := by
  have sized : ∀ address : Address, address.bytes.length = 20 := fun address => bigEndian_length 20 _
  revert structured
  cases payload : tx.payload
  case deposit d =>
    obtain ⟨amount,assetId⟩ : (TxPayload.deposit d).Fits := payload ▸ fits
    intro structured
    cases structured
    simp only [Struct.Typed,List.forall_mem_cons,Value.Of]
    exact ⟨nonce,sized _,amount,assetId,fun _ nothing => absurd nothing List.not_mem_nil⟩
  case withdraw w =>
    obtain ⟨amount,assetId⟩ : (TxPayload.withdraw w).Fits := payload ▸ fits
    intro structured
    cases structured
    simp only [Struct.Typed,List.forall_mem_cons,Value.Of]
    exact ⟨nonce,sized _,amount,assetId,sized _,fun _ nothing => absurd nothing List.not_mem_nil⟩
  case placeOrder o =>
    have market : (TxPayload.placeOrder o).Fits := payload ▸ fits
    have kind := TxPayload.OrderType.tag_lt o.orderType
    have time := TxPayload.TimeInForce.tag_lt o.timeInForce
    have words := o.words64
    intro structured
    cases structured
    simp only [Struct.Typed,List.forall_mem_cons,Value.Of]
    exact ⟨nonce,sized _,market,trivial,kind,words.1,words.2,time,trivial,trivial,fun _ nothing => absurd nothing List.not_mem_nil⟩
  case cancelOrder c =>
    have orderId : (TxPayload.cancelOrder c).Fits := payload ▸ fits
    intro structured
    cases structured
    simp only [Struct.Typed,List.forall_mem_cons,Value.Of]
    exact ⟨nonce,sized _,orderId,fun _ nothing => absurd nothing List.not_mem_nil⟩
  case transfer t =>
    obtain ⟨amount,assetId⟩ : (TxPayload.transfer t).Fits := payload ▸ fits
    intro structured
    cases structured
    simp only [Struct.Typed,List.forall_mem_cons,Value.Of]
    exact ⟨nonce,sized _,sized _,amount,assetId,fun _ nothing => absurd nothing List.not_mem_nil⟩
  all_goals
    intro structured
    cases structured

def digest (keccak256 : List UInt8 → B256) (data : List UInt8) : List UInt8 := (keccak256 data).bytes

def standardData (keccak256 : List UInt8 → B256) (domain : TypedDataDomain) (struct : Struct) : List UInt8 :=
  struct.signingData (digest keccak256) (domain.hash keccak256).bytes

def standardHash (keccak256 : List UInt8 → B256) (domain : TypedDataDomain) (struct : Struct) : B256 :=
  keccak256 (standardData keccak256 domain struct)

-- No collision among the strings that the two computations hash for the struct and for the whole.
structure Separates (keccak256 : List UInt8 → B256) (tx : Transaction) (domain : TypedDataDomain) (struct : Struct) : Prop where
  structs : ∀ data, tx.structHashData keccak256 = some data →
    keccak256 data = keccak256 (struct.hashData (digest keccak256)) → data = struct.hashData (digest keccak256)
  finals : ∀ data, tx.finalData keccak256 domain = some data →
    keccak256 data = keccak256 (standardData keccak256 domain struct) → data = standardData keccak256 domain struct

-- The struct is hashed over the digest of its words.
theorem structHashData_eq (structured : tx.payload.struct tx.nonce tx.sender = some struct) :
    tx.structHashData keccak256 =
      some (digest keccak256 struct.encodeType.toUTF8.data.toList ++ digest keccak256 struct.encodeData) := by
  unfold Transaction.structHashData TxPayload.eip712EncodeData TxPayload.eip712TypeHash
  rw [struct_encodeData keccak256 structured,struct_encodeType structured]
  rfl

theorem signing_hash_never_standard (keccak256 : List UInt8 → B256) (tx : Transaction) (domain : TypedDataDomain)
    (nonce : tx.nonce < 2 ^ 64) (fits : tx.payload.Fits)
    (structured : tx.payload.struct tx.nonce tx.sender = some struct) (separates : Separates keccak256 tx domain struct) :
    tx.eip712SigningHash keccak256 domain ≠ some (standardHash keccak256 domain struct) := by
  have inner : tx.structHashData keccak256 = _ := structHashData_eq structured
  have word : (digest keccak256 struct.encodeData).length = 32 := bigEndian_length 32 _
  have outer : tx.finalData keccak256 domain = some ([0x19,0x01] ++ (domain.hash keccak256).bytes ++
      digest keccak256 (digest keccak256 struct.encodeType.toUTF8.data.toList ++ digest keccak256 struct.encodeData)) := by
    rw [Transaction.finalData,inner]
    rfl
  intro same
  rw [Transaction.eip712SigningHash,outer,Option.map_some] at same
  have whole := separates.finals _ outer (Option.some.inj same)
  have structs := separates.structs _ inner (B256.bytes_inj (List.append_cancel_left whole))
  exact Struct.hashData_ne (struct_typed nonce fits structured) (struct_several structured) word structs

def transferring : Transaction := ⟨7,Bench.alice,.transfer ⟨Bench.bob,5,0⟩,.eip712 {} 1⟩

def transferStruct : Struct := ⟨"Transfer",[⟨.uint 64,"nonce",.uint 7⟩,⟨.address,"from",.address Bench.alice.bytes⟩,
  ⟨.address,"to",.address Bench.bob.bytes⟩,⟨.uint 128,"amount",.uint 5⟩,⟨.uint 32,"assetId",.uint 0⟩]⟩

theorem transfer_hashed_otherwise :
    transferring.payload.struct 7 Bench.alice = some transferStruct ∧
      transferStruct.encodeType = "Transfer(uint64 nonce,address from,address to,uint128 amount,uint32 assetId)" ∧
      transferring.eip712SigningHash Transaction.spread {} ≠ some (standardHash Transaction.spread {} transferStruct) :=
  ⟨rfl,by decide +kernel,by decide +kernel⟩

theorem transfer_separates : Separates Transaction.spread transferring {} transferStruct := by
  have structs : (transferring.structHashData Transaction.spread).map Transaction.spread ≠
      some (Transaction.spread (transferStruct.hashData (digest Transaction.spread))) := by decide +kernel
  have finals : (transferring.finalData Transaction.spread {}).map Transaction.spread ≠
      some (Transaction.spread (standardData Transaction.spread {} transferStruct)) := by decide +kernel
  constructor
  · intro data found same
    rw [found] at structs
    exact absurd (congrArg some same) structs
  · intro data found same
    rw [found] at finals
    exact absurd (congrArg some same) finals

theorem signing_hash_never_standard_transfer :
    transferring.eip712SigningHash Transaction.spread {} ≠ some (standardHash Transaction.spread {} transferStruct) :=
  signing_hash_never_standard Transaction.spread transferring {} (by decide) ⟨by decide,by decide⟩ rfl transfer_separates

end WalletHash
end Pranklin
