import Pranklin.TxCodec

namespace Pranklin
open Borsh Borsh.Format

def utf8 (s : String) : List UInt8 := s.toUTF8.data.toList

def B256.bytes (hash : B256) : List UInt8 := bigEndian 32 hash.toNat
def Address.bytes (address : Address) : List UInt8 := bigEndian 20 address.value.val

def Eip712Encode.uint (n : Nat) : List UInt8 := bigEndian 32 n
def Eip712Encode.address (address : Address) : List UInt8 := List.replicate 12 0 ++ address.bytes
def Eip712Encode.bool (b : Bool) : List UInt8 := Eip712Encode.uint b.toNat

inductive Eip712Type where
  | deposit
  | withdraw
  | placeOrder
  | cancelOrder
  | transfer
  | generic
deriving DecidableEq

def Eip712Type.text : Eip712Type → String
  | .deposit => "Deposit(uint64 nonce,address from,uint128 amount,uint32 assetId)"
  | .withdraw => "Withdraw(uint64 nonce,address from,uint128 amount,uint32 assetId,address to)"
  | .placeOrder => "PlaceOrder(uint64 nonce,address from,uint32 marketId,bool isBuy,uint8 orderType,uint64 price,uint64 size,uint8 timeInForce,bool reduceOnly,bool postOnly)"
  | .cancelOrder => "CancelOrder(uint64 nonce,address from,uint64 orderId)"
  | .transfer => "Transfer(uint64 nonce,address from,address to,uint128 amount,uint32 assetId)"
  | .generic => "GenericTx(uint64 nonce,address from,bytes payload)"

section Hashes
variable (sha256 keccak256 : List UInt8 → B256)

namespace TypedDataDomain

def typeText : String := "EIP712Domain(string name,string version,uint256 chainId)"

def hashData (domain : TypedDataDomain) : List UInt8 :=
  (keccak256 (utf8 typeText)).bytes ++ (keccak256 (utf8 domain.name)).bytes ++ (keccak256 (utf8 domain.version)).bytes ++
    Eip712Encode.uint domain.chainId

def hash (domain : TypedDataDomain) : B256 := keccak256 (domain.hashData keccak256)

end TypedDataDomain

namespace TxPayload

def eip712Type : TxPayload → Eip712Type
  | .deposit _ => .deposit
  | .withdraw _ => .withdraw
  | .placeOrder _ => .placeOrder
  | .cancelOrder _ => .cancelOrder
  | .transfer _ => .transfer
  | _ => .generic

def eip712TypeHash (payload : TxPayload) : B256 := keccak256 (utf8 payload.eip712Type.text)

-- The words after nonce and sender; a payload without a struct of its own is hashed whole.
-- None is the panic of a payload that borsh does not write.
def eip712Words (payload : TxPayload) : Option (List (List UInt8)) :=
  match payload with
  | .deposit d => some [Eip712Encode.uint d.amount,Eip712Encode.uint d.assetId]
  | .withdraw w => some [Eip712Encode.uint w.amount,Eip712Encode.uint w.assetId,Eip712Encode.address w.recipient]
  | .placeOrder o => some [Eip712Encode.uint o.marketId,Eip712Encode.bool o.isBuy,Eip712Encode.uint o.orderType.tag,
      Eip712Encode.uint o.price,Eip712Encode.uint o.size,Eip712Encode.uint o.timeInForce.tag,
      Eip712Encode.bool o.reduceOnly,Eip712Encode.bool o.postOnly]
  | .cancelOrder c => some [Eip712Encode.uint c.orderId]
  | .transfer t => some [Eip712Encode.address t.recipient,Eip712Encode.uint t.amount,Eip712Encode.uint t.assetId]
  | _ => (format.encode payload).map fun data => [(keccak256 data).bytes]

-- What a payload without a struct of its own is hashed as.
def genericData (payload : TxPayload) : Option (List UInt8) :=
  match payload.eip712Type with
  | .generic => format.encode payload
  | _ => none

def eip712Data (payload : TxPayload) (nonce : Nat) (sender : Address) : Option (List UInt8) :=
  (payload.eip712Words keccak256).map fun words =>
    (Eip712Encode.uint nonce :: Eip712Encode.address sender :: words).flatten

def eip712EncodeData (payload : TxPayload) (nonce : Nat) (sender : Address) : Option B256 :=
  (payload.eip712Data keccak256 nonce sender).map keccak256

end TxPayload

namespace Transaction

def rawSigningData (tx : Transaction) : Option (List UInt8) :=
  (TxPayload.format.encode tx.payload).map fun payload => littleEndian 8 tx.nonce ++ tx.sender.bytes ++ payload

def rawSigningHash (tx : Transaction) : Option B256 := tx.rawSigningData.map sha256

def structHashData (tx : Transaction) : Option (List UInt8) :=
  (tx.payload.eip712EncodeData keccak256 tx.nonce tx.sender).map fun data =>
    (tx.payload.eip712TypeHash keccak256).bytes ++ data.bytes

def finalData (tx : Transaction) (domain : TypedDataDomain) : Option (List UInt8) :=
  (tx.structHashData keccak256).map fun data =>
    [0x19,0x01] ++ (domain.hash keccak256).bytes ++ (keccak256 data).bytes

def eip712SigningHash (tx : Transaction) (domain : TypedDataDomain) : Option B256 :=
  (tx.finalData keccak256 domain).map keccak256

def signingHash (tx : Transaction) : Option B256 :=
  match tx.signature with
  | .rawBorsh _ => tx.rawSigningHash sha256
  | .eip712 domain _ => tx.eip712SigningHash keccak256 domain

def shaInputs (tx : Transaction) : List (List UInt8) :=
  match tx.signature with
  | .rawBorsh _ => tx.rawSigningData.toList
  | .eip712 _ _ => []

def keccakInputs (tx : Transaction) : List (List UInt8) :=
  match tx.signature with
  | .rawBorsh _ => []
  | .eip712 domain _ => [utf8 TypedDataDomain.typeText,utf8 domain.name,utf8 domain.version,domain.hashData keccak256,
      utf8 tx.payload.eip712Type.text] ++ tx.payload.genericData.toList ++
      (tx.payload.eip712Data keccak256 tx.nonce tx.sender).toList ++ (tx.structHashData keccak256).toList ++
      (tx.finalData keccak256 domain).toList

structure Words (tx : Transaction) : Prop where
  nonce : tx.nonce < 2 ^ 64
  payload : tx.payload.Fits
  chainId : ∀ domain signature, tx.signature = .eip712 domain signature → domain.chainId < 2 ^ 256

end Transaction
end Hashes

section Bytes

theorem B256.bytes_inj {one other : B256} (same : one.bytes = other.bytes) : one = other :=
  BitVec.eq_of_toNat_eq (bigEndian_inj one.isLt other.isLt same)

theorem Address.bytes_inj {one other : Address} (same : one.bytes = other.bytes) : one = other := by
  obtain ⟨one⟩ := one
  obtain ⟨other⟩ := other
  exact congrArg Address.mk (Fin.ext (bigEndian_inj one.isLt other.isLt same))

theorem Eip712Encode.uint_inj {width n m : Nat} (wide : width ≤ 256) (one : n < 2 ^ width) (other : m < 2 ^ width)
    (same : Eip712Encode.uint n = Eip712Encode.uint m) : n = m := by
  have fits : 2 ^ width ≤ 256 ^ 32 :=
    calc 2 ^ width ≤ 2 ^ (8 * 32) := Nat.pow_le_pow_right (by decide) wide
      _ = 256 ^ 32 := Nat.pow_mul 2 8 32
  exact bigEndian_inj (one.trans_le fits) (other.trans_le fits) same

theorem Eip712Encode.address_inj {one other : Address} (same : Eip712Encode.address one = Eip712Encode.address other) :
    one = other := Address.bytes_inj (List.append_cancel_left same)

theorem Eip712Encode.bool_inj {one other : Bool} (same : Eip712Encode.bool one = Eip712Encode.bool other) :
    one = other := by
  have small : ∀ b : Bool, b.toNat < 2 ^ 1 := by decide
  have values := Eip712Encode.uint_inj (by decide) (small one) (small other) same
  revert values
  cases one <;> cases other <;> simp

theorem Eip712Encode.address_length (address : Address) : (Eip712Encode.address address).length = 32 := by
  unfold Eip712Encode.address Address.bytes
  rw [List.length_append,List.length_replicate,bigEndian_length]

end Bytes

namespace TxPayload
variable {keccak256 : List UInt8 → B256} {payload : TxPayload} {words : List (List UInt8)}

theorem eip712Words_length (written : payload.eip712Words keccak256 = some words) : ∀ word ∈ words, word.length = 32 := by
  cases payload
  case deposit | withdraw | placeOrder | cancelOrder | transfer =>
    cases written
    simp [Eip712Encode.uint,Eip712Encode.bool,bigEndian_length,Eip712Encode.address_length]
  all_goals
    obtain ⟨data,_,same⟩ := Option.map_eq_some_iff.mp written
    subst same
    simp [B256.bytes,bigEndian_length]

theorem eip712Words_generic (generic : payload.eip712Type = .generic) :
    payload.eip712Words keccak256 = payload.genericData.map fun data => [(keccak256 data).bytes] := by
  cases payload
  case deposit | withdraw | placeOrder | cancelOrder | transfer => cases generic
  all_goals rfl

theorem genericData_eq (generic : payload.eip712Type = .generic) : payload.genericData = format.encode payload := by
  unfold genericData
  rw [generic]

theorem OrderType.tag_inj {one other : OrderType} (same : one.tag = other.tag) : one = other := by
  cases one <;> cases other <;> first | rfl | cases same

theorem TimeInForce.tag_inj {one other : TimeInForce} (same : one.tag = other.tag) : one = other := by
  cases one <;> cases other <;> first | rfl | cases same

theorem OrderType.tag_lt (t : OrderType) : t.tag < 2 ^ 8 := by cases t <;> decide

theorem TimeInForce.tag_lt (t : TimeInForce) : t.tag < 2 ^ 8 := by cases t <;> decide

open Eip712Encode in
theorem placeOrder_inj {one other : PlaceOrderTx} (fits : one.marketId < 2 ^ 32) (alike : other.marketId < 2 ^ 32)
    (same : (TxPayload.placeOrder one).eip712Words keccak256 = (TxPayload.placeOrder other).eip712Words keccak256) :
    one = other := by
  simp only [eip712Words,Option.some.injEq,List.cons.injEq,and_true] at same
  obtain ⟨market,side,kind,price,size,time,reduce,post⟩ := same
  have marketId := uint_inj (by decide) fits alike market
  have orderType := OrderType.tag_inj (uint_inj (by decide) (OrderType.tag_lt _) (OrderType.tag_lt _) kind)
  have priced := uint_inj (by decide) one.words64.1 other.words64.1 price
  have sized := uint_inj (by decide) one.words64.2 other.words64.2 size
  have timeInForce := TimeInForce.tag_inj (uint_inj (by decide) (TimeInForce.tag_lt _) (TimeInForce.tag_lt _) time)
  obtain ⟨_,_,_,_,_,_,_,_,_⟩ := one
  obtain ⟨_,_,_,_,_,_,_,_,_⟩ := other
  cases marketId
  cases orderType
  cases priced
  cases sized
  cases timeInForce
  cases bool_inj side
  cases bool_inj reduce
  cases bool_inj post
  rfl

open Eip712Encode in
theorem payload_of_words {one other : TxPayload} (fits : one.Fits) (alike : other.Fits)
    (kind : one.eip712Type = other.eip712Type)
    (apart : ∀ data back, one.genericData = some data → other.genericData = some back → keccak256 data = keccak256 back →
      data = back)
    (written : one.eip712Words keccak256 = some words) (again : other.eip712Words keccak256 = some words) : one = other := by
  have same := written.trans again.symm
  by_cases generic : one.eip712Type = .generic
  · have other_generic := kind ▸ generic
    rw [eip712Words_generic generic] at written
    rw [eip712Words_generic other_generic] at again
    obtain ⟨data,first,one_hash⟩ := Option.map_eq_some_iff.mp written
    obtain ⟨back,second,other_hash⟩ := Option.map_eq_some_iff.mp again
    have hashes := one_hash.trans other_hash.symm
    simp only [List.cons.injEq,and_true] at hashes
    have equal := apart data back first second (B256.bytes_inj hashes)
    rw [genericData_eq generic] at first
    rw [genericData_eq other_generic,← equal] at second
    exact format.encode_inj first second
  · cases one
    case deposit d =>
      cases other
      case deposit d' =>
        simp only [eip712Words,Option.some.injEq,List.cons.injEq,and_true] at same
        have amount := uint_inj (by decide) fits.1 alike.1 same.1
        have assetId := uint_inj (by decide) fits.2 alike.2 same.2
        obtain ⟨_,_⟩ := d
        cases amount
        cases assetId
        rfl
      all_goals cases kind
    case withdraw w =>
      cases other
      case withdraw w' =>
        simp only [eip712Words,Option.some.injEq,List.cons.injEq,and_true] at same
        have amount := uint_inj (by decide) fits.1 alike.1 same.1
        have assetId := uint_inj (by decide) fits.2 alike.2 same.2.1
        have recipient := address_inj same.2.2
        obtain ⟨_,_,_⟩ := w
        cases amount
        cases assetId
        cases recipient
        rfl
      all_goals cases kind
    case placeOrder o =>
      cases other
      case placeOrder o' => rw [placeOrder_inj fits alike same]
      all_goals cases kind
    case cancelOrder c =>
      cases other
      case cancelOrder c' =>
        simp only [eip712Words,Option.some.injEq,List.cons.injEq,and_true] at same
        have orderId := uint_inj (by decide) fits alike same
        obtain ⟨_⟩ := c
        cases orderId
        rfl
      all_goals cases kind
    case transfer t =>
      cases other
      case transfer t' =>
        simp only [eip712Words,Option.some.injEq,List.cons.injEq,and_true] at same
        have recipient := address_inj same.1
        have amount := uint_inj (by decide) fits.1 alike.1 same.2.1
        have assetId := uint_inj (by decide) fits.2 alike.2 same.2.2
        obtain ⟨_,_,_⟩ := t
        cases recipient
        cases amount
        cases assetId
        rfl
      all_goals cases kind
    all_goals exact absurd rfl generic

theorem eip712Words_some (keccak256 : List UInt8 → B256) (fits : payload.Fits) :
    ∃ words, payload.eip712Words keccak256 = some words := by
  obtain ⟨data,written⟩ := writes_iff.mp ((writes_payload payload).mpr fits)
  unfold eip712Words
  split
  all_goals first | exact ⟨_,rfl⟩ | exact ⟨_,congrArg (Option.map _) written⟩

end TxPayload

theorem utf8_inj {one other : String} (same : utf8 one = utf8 other) : one = other := by
  have arrays : one.toUTF8.data = other.toUTF8.data := Array.toList_inj.mp same
  exact String.toByteArray_inj.mp (ByteArray.ext arrays)

theorem Eip712Type.text_inj {one other : Eip712Type} (same : one.text = other.text) : one = other := by
  revert same
  cases one <;> cases other <;> decide +kernel

namespace Transaction
variable {sha256 keccak256 : List UInt8 → B256} {one other : Transaction}

theorem rawSigningData_inj (words : one.Words) (alike : other.Words) {data : List UInt8}
    (written : one.rawSigningData = some data) (again : other.rawSigningData = some data) :
    one.nonce = other.nonce ∧ one.sender = other.sender ∧ one.payload = other.payload := by
  obtain ⟨payload,first,same⟩ := Option.map_eq_some_iff.mp written
  obtain ⟨back,second,other_same⟩ := Option.map_eq_some_iff.mp again
  have equal := same.trans other_same.symm
  have heads : (littleEndian 8 one.nonce ++ one.sender.bytes).length =
      (littleEndian 8 other.nonce ++ other.sender.bytes).length := by
    unfold Address.bytes
    rw [List.length_append,List.length_append,littleEndian_length,littleEndian_length,bigEndian_length,bigEndian_length]
  obtain ⟨front,rest⟩ := List.append_inj equal heads
  obtain ⟨nonce,sender⟩ := List.append_inj front ((littleEndian_length ..).trans (littleEndian_length ..).symm)
  exact ⟨littleEndian_inj words.nonce alike.nonce nonce,Address.bytes_inj sender,
    TxPayload.format.encode_inj first (rest ▸ second)⟩

section Eip712
variable {domain back : TypedDataDomain} {data : List UInt8}

theorem keccakInputs_eip712 {signature : BitVec 520} (signed : one.signature = .eip712 domain signature) :
    one.keccakInputs keccak256 =
      [utf8 TypedDataDomain.typeText,utf8 domain.name,utf8 domain.version,domain.hashData keccak256,
        utf8 one.payload.eip712Type.text] ++ one.payload.genericData.toList ++
        (one.payload.eip712Data keccak256 one.nonce one.sender).toList ++ (one.structHashData keccak256).toList ++
        (one.finalData keccak256 domain).toList := by
  unfold keccakInputs
  rw [signed]

-- Equal digests of byte strings that the two transactions hash come from equal strings.
def Apart (keccak256 : List UInt8 → B256) (one other : Transaction) : Prop :=
  ∀ data ∈ one.keccakInputs keccak256, ∀ back ∈ other.keccakInputs keccak256, keccak256 data = keccak256 back → data = back

theorem hashData_inj (wide : domain.chainId < 2 ^ 256) (alike : back.chainId < 2 ^ 256)
    (names : keccak256 (utf8 domain.name) = keccak256 (utf8 back.name) → utf8 domain.name = utf8 back.name)
    (versions : keccak256 (utf8 domain.version) = keccak256 (utf8 back.version) →
      utf8 domain.version = utf8 back.version)
    (same : domain.hashData keccak256 = back.hashData keccak256) :
    domain.name = back.name ∧ domain.version = back.version ∧ domain.chainId = back.chainId := by
  have sized : ∀ hash : B256, hash.bytes.length = 32 := fun hash => bigEndian_length 32 _
  obtain ⟨front,chainId⟩ := List.append_inj same (by simp only [List.length_append,sized])
  obtain ⟨front,version⟩ := List.append_inj front (by simp only [List.length_append,sized])
  obtain ⟨_,name⟩ := List.append_inj front (by simp only [sized])
  exact ⟨utf8_inj (names (B256.bytes_inj name)),utf8_inj (versions (B256.bytes_inj version)),
    Eip712Encode.uint_inj (by decide) wide alike chainId⟩

theorem eip712Data_inj (words : one.Words) (alike : other.Words) (kind : one.payload.eip712Type = other.payload.eip712Type)
    (apart : ∀ data back, one.payload.genericData = some data → other.payload.genericData = some back →
      keccak256 data = keccak256 back → data = back)
    (written : one.payload.eip712Data keccak256 one.nonce one.sender = some data)
    (again : other.payload.eip712Data keccak256 other.nonce other.sender = some data) :
    one.nonce = other.nonce ∧ one.sender = other.sender ∧ one.payload = other.payload := by
  obtain ⟨fields,first,same⟩ := Option.map_eq_some_iff.mp written
  obtain ⟨others,second,other_same⟩ := Option.map_eq_some_iff.mp again
  have sized : ∀ (tx : Transaction) blocks, tx.payload.eip712Words keccak256 = some blocks →
      ∀ block ∈ Eip712Encode.uint tx.nonce :: Eip712Encode.address tx.sender :: blocks, block.length = 32 := by
    intro tx blocks found block inside
    rcases List.mem_cons.mp inside with same | inside
    · exact same ▸ bigEndian_length 32 _
    · rcases List.mem_cons.mp inside with same | inside
      · exact same ▸ Eip712Encode.address_length _
      · exact TxPayload.eip712Words_length found block inside
  have blocks := blocks_inj (by decide) (sized one fields first) (sized other others second) (same.trans other_same.symm)
  obtain ⟨nonce,rest⟩ := List.cons.inj blocks
  obtain ⟨sender,equal⟩ := List.cons.inj rest
  exact ⟨Eip712Encode.uint_inj (by decide) words.nonce alike.nonce nonce,Eip712Encode.address_inj sender,
    TxPayload.payload_of_words words.payload alike.payload kind apart first (equal ▸ second)⟩

theorem finalData_inj (words : one.Words) (alike : other.Words) {signature other_signature : BitVec 520}
    (signed : one.signature = .eip712 domain signature) (signed_too : other.signature = .eip712 back other_signature)
    (apart : Apart keccak256 one other) (written : one.finalData keccak256 domain = some data)
    (again : other.finalData keccak256 back = some data) :
    one.nonce = other.nonce ∧ one.sender = other.sender ∧ one.payload = other.payload ∧
      domain.name = back.name ∧ domain.version = back.version ∧ domain.chainId = back.chainId := by
  have sized : ∀ hash : B256, hash.bytes.length = 32 := fun hash => bigEndian_length 32 _
  unfold Apart at apart
  rw [keccakInputs_eip712 signed,keccakInputs_eip712 signed_too] at apart
  obtain ⟨structure_data,structured,same⟩ := Option.map_eq_some_iff.mp written
  obtain ⟨other_data,other_structured,other_same⟩ := Option.map_eq_some_iff.mp again
  obtain ⟨front,struct_hash⟩ := List.append_inj (same.trans other_same.symm) (by simp only [List.length_append,sized])
  obtain ⟨_,domain_hash⟩ := List.append_inj front rfl
  have domains := apart (domain.hashData keccak256) (by simp) (back.hashData keccak256) (by simp)
    (B256.bytes_inj domain_hash)
  have bound := hashData_inj (words.chainId _ _ signed) (alike.chainId _ _ signed_too)
    (apart (utf8 domain.name) (by simp) (utf8 back.name) (by simp))
    (apart (utf8 domain.version) (by simp) (utf8 back.version) (by simp)) domains
  have structs := apart structure_data (by simp [structured]) other_data (by simp [other_structured])
    (B256.bytes_inj struct_hash)
  obtain ⟨encoded,hashed,joined⟩ := Option.map_eq_some_iff.mp structured
  obtain ⟨other_encoded,other_hashed,other_joined⟩ := Option.map_eq_some_iff.mp other_structured
  obtain ⟨type_hash,data_hash⟩ := List.append_inj (joined.trans (structs.trans other_joined.symm)) (by simp only [sized])
  have kind := Eip712Type.text_inj (utf8_inj (apart (utf8 one.payload.eip712Type.text) (by simp)
    (utf8 other.payload.eip712Type.text) (by simp) (B256.bytes_inj type_hash)))
  obtain ⟨fields,gathered,digest⟩ := Option.map_eq_some_iff.mp hashed
  obtain ⟨other_fields,other_gathered,other_digest⟩ := Option.map_eq_some_iff.mp other_hashed
  have alike_fields := apart fields (by simp [gathered]) other_fields (by simp [other_gathered])
    (digest.trans ((B256.bytes_inj data_hash).trans other_digest.symm))
  have signed_parts := eip712Data_inj words alike kind
    (fun data back first second => apart data (by simp [first]) back (by simp [second]))
    gathered (alike_fields ▸ other_gathered)
  exact ⟨signed_parts.1,signed_parts.2.1,signed_parts.2.2,bound⟩

end Eip712

theorem rawSigningData_some (words : one.Words) : ∃ data, one.rawSigningData = some data := by
  obtain ⟨payload,written⟩ := writes_iff.mp ((writes_payload one.payload).mpr words.payload)
  exact ⟨_,congrArg (Option.map _) written⟩

theorem finalData_some (keccak256 : List UInt8 → B256) (words : one.Words) (domain : TypedDataDomain) :
    ∃ data, one.finalData keccak256 domain = some data := by
  obtain ⟨fields,written⟩ := TxPayload.eip712Words_some keccak256 words.payload
  unfold finalData structHashData TxPayload.eip712EncodeData TxPayload.eip712Data
  rw [written]
  exact ⟨_,rfl⟩

-- Two transactions that are signed the same way and have one signing hash agree on everything that is signed,
-- where the two hash functions do not collide on what the two transactions feed them.
theorem signing_hash_binds (sha256 keccak256 : List UInt8 → B256) (one other : Transaction) (words : one.Words)
    (alike : other.Words) (kind : one.signature.tag = other.signature.tag)
    (shaApart : ∀ data ∈ one.shaInputs, ∀ back ∈ other.shaInputs, sha256 data = sha256 back → data = back)
    (keccakApart : ∀ data ∈ one.keccakInputs keccak256, ∀ back ∈ other.keccakInputs keccak256,
      keccak256 data = keccak256 back → data = back)
    (same : one.signingHash sha256 keccak256 = other.signingHash sha256 keccak256) :
    one.nonce = other.nonce ∧ one.sender = other.sender ∧ one.payload = other.payload ∧
      ∀ domain back signature other_signature, one.signature = .eip712 domain signature →
        other.signature = .eip712 back other_signature →
        domain.name = back.name ∧ domain.version = back.version ∧ domain.chainId = back.chainId := by
  cases signed : one.signature with
  | rawBorsh signature =>
    cases signed_too : other.signature with
    | eip712 back other_signature =>
      rw [signed,signed_too] at kind
      cases kind
    | rawBorsh other_signature =>
      obtain ⟨data,written⟩ := rawSigningData_some words
      obtain ⟨back,again⟩ := rawSigningData_some alike
      unfold shaInputs at shaApart
      rw [signed,signed_too] at shaApart
      unfold signingHash rawSigningHash at same
      rw [signed,signed_too,written,again] at same
      have equal := shaApart data (by simp [written]) back (by simp [again]) (Option.some.inj same)
      have parts := rawSigningData_inj words alike written (equal ▸ again)
      exact ⟨parts.1,parts.2.1,parts.2.2,by simp⟩
  | eip712 domain signature =>
    cases signed_too : other.signature with
    | rawBorsh other_signature =>
      rw [signed,signed_too] at kind
      cases kind
    | eip712 back other_signature =>
      obtain ⟨data,written⟩ := finalData_some keccak256 words domain
      obtain ⟨other_data,again⟩ := finalData_some keccak256 alike back
      unfold signingHash at same
      rw [signed,signed_too] at same
      change (one.finalData keccak256 domain).map keccak256 = (other.finalData keccak256 back).map keccak256 at same
      rw [written,again] at same
      have equal := keccakApart data (by simp [keccakInputs_eip712 signed,written]) other_data
        (by simp [keccakInputs_eip712 signed_too,again]) (Option.some.inj same)
      have parts := finalData_inj words alike signed signed_too keccakApart written (equal ▸ again)
      refine ⟨parts.1,parts.2.1,parts.2.2.1,?_⟩
      rintro _ _ _ _ ⟨rfl,rfl⟩ ⟨rfl,rfl⟩
      exact parts.2.2.2

def spread (data : List UInt8) : B256 := BitVec.ofNat 256 (data.foldl (fun sum byte => sum * 1000003 + byte.toNat + 1) 7)

def bridgeWithdrawal (signature : BitVec 520) : Transaction :=
  ⟨7,Bench.alice,.bridgeWithdraw ⟨Bench.bob,5,0,Bench.bob,9⟩,.eip712 {} signature⟩

theorem signing_hash_binds_resigned :
    (bridgeWithdrawal 1).nonce = 7 ∧ (bridgeWithdrawal 1).payload = (bridgeWithdrawal 2).payload := by
  have words : ∀ signature, (bridgeWithdrawal signature).Words := by
    intro signature
    have nonce : 7 < 2 ^ 64 := by decide
    refine ⟨nonce,⟨by decide,by decide,by decide⟩,?_⟩
    rintro domain _ ⟨rfl,_⟩
    decide
  have kind : ∀ signature, (bridgeWithdrawal signature).signature.tag = 0 := fun _ => rfl
  have bound := signing_hash_binds spread spread (bridgeWithdrawal 1) (bridgeWithdrawal 2) (words 1) (words 2)
    ((kind 1).trans (kind 2).symm) (by decide +kernel) (by decide +kernel) (by decide +kernel)
  exact ⟨rfl,bound.2.2.1⟩

end Transaction
end Pranklin
