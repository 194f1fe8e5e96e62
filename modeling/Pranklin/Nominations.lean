import Pranklin.AgentReplay
import Pranklin.TxSigning

namespace Pranklin
open Borsh Borsh.Format Effect TransactionExecutor

namespace AgentNomination

def domainTypeText : String := "EIP712Domain(string name,string version,uint256 chainId,address verifyingContract)"
def typeText : String := "AgentNomination(address account,address agent,uint64 permissions,uint64 nonce)"

section Hashes
variable (keccak256 : List UInt8 → B256)

-- Neither the chain's number nor the fields of the struct are padded to words.
def domainData (domain : AgentNominationDomain) : List UInt8 :=
  (keccak256 (utf8 domainTypeText)).bytes ++ (keccak256 (utf8 domain.name)).bytes ++ (keccak256 (utf8 domain.version)).bytes ++
    bigEndian 8 domain.chainId ++ domain.verifyingContract.bytes

def domainSeparator (domain : AgentNominationDomain) : B256 := keccak256 (domainData keccak256 domain)

def structData (nomination : AgentNomination) : List UInt8 :=
  (keccak256 (utf8 typeText)).bytes ++ nomination.account.bytes ++ nomination.agent.bytes ++
    bigEndian 8 nomination.permissions ++ bigEndian 8 nomination.nonce

def structHash (nomination : AgentNomination) : B256 := keccak256 (nomination.structData keccak256)

def eip712Data (nomination : AgentNomination) (domain : AgentNominationDomain) : List UInt8 :=
  [0x19,0x01] ++ (domainSeparator keccak256 domain).bytes ++ (nomination.structHash keccak256).bytes

def eip712Hash (nomination : AgentNomination) (domain : AgentNominationDomain) : B256 :=
  keccak256 (nomination.eip712Data keccak256 domain)

def keccakInputs (nomination : AgentNomination) (domain : AgentNominationDomain) : List (List UInt8) :=
  [utf8 domain.name,utf8 domain.version,domainData keccak256 domain,nomination.structData keccak256,
    nomination.eip712Data keccak256 domain]

end Hashes

structure Words (nomination : AgentNomination) (domain : AgentNominationDomain) : Prop where
  permissions : nomination.permissions < 2 ^ 64
  nonce : nomination.nonce < 2 ^ 64
  chainId : domain.chainId < 2 ^ 64

variable {keccak256 : List UInt8 → B256} {one other nomination : AgentNomination} {domain back : AgentNominationDomain}

theorem bytes_length (hash : B256) : hash.bytes.length = 32 := bigEndian_length 32 _

theorem word_inj {n m : Nat} (one : n < 2 ^ 64) (other : m < 2 ^ 64) (same : bigEndian 8 n = bigEndian 8 m) : n = m := by
  have fits : 2 ^ 64 = 256 ^ 8 := by decide
  exact bigEndian_inj (fits ▸ one) (fits ▸ other) same

theorem domainData_length (domain : AgentNominationDomain) : (domainData keccak256 domain).length = 124 := by
  simp [domainData,bytes_length,Address.bytes,bigEndian_length]

theorem domainData_inj (wide : domain.chainId < 2 ^ 64) (alike : back.chainId < 2 ^ 64)
    (names : keccak256 (utf8 domain.name) = keccak256 (utf8 back.name) → utf8 domain.name = utf8 back.name)
    (versions : keccak256 (utf8 domain.version) = keccak256 (utf8 back.version) → utf8 domain.version = utf8 back.version)
    (same : domainData keccak256 domain = domainData keccak256 back) : domain = back := by
  obtain ⟨front,contract⟩ := List.append_inj same (by simp [bytes_length,bigEndian_length])
  obtain ⟨front,chainId⟩ := List.append_inj front (by simp [bytes_length])
  obtain ⟨front,version⟩ := List.append_inj front (by simp [bytes_length])
  obtain ⟨_,name⟩ := List.append_inj front (by simp [bytes_length])
  obtain ⟨_,_,_,_⟩ := domain
  obtain ⟨_,_,_,_⟩ := back
  cases utf8_inj (names (B256.bytes_inj name))
  cases utf8_inj (versions (B256.bytes_inj version))
  cases word_inj wide alike chainId
  cases Address.bytes_inj contract
  rfl

theorem structData_inj (words : one.Words domain) (alike : other.Words back)
    (same : one.structData keccak256 = other.structData keccak256) : one = other := by
  obtain ⟨front,nonce⟩ := List.append_inj same (by simp [bytes_length,Address.bytes,bigEndian_length])
  obtain ⟨front,permissions⟩ := List.append_inj front (by simp [bytes_length,Address.bytes,bigEndian_length])
  obtain ⟨front,agent⟩ := List.append_inj front (by simp [bytes_length,Address.bytes,bigEndian_length])
  obtain ⟨_,account⟩ := List.append_inj front (by simp [bytes_length])
  obtain ⟨_,_,_,_⟩ := one
  obtain ⟨_,_,_,_⟩ := other
  cases Address.bytes_inj account
  cases Address.bytes_inj agent
  cases word_inj words.permissions alike.permissions permissions
  cases word_inj words.nonce alike.nonce nonce
  rfl

theorem parts_inj {separator structure_ separator' structure' : B256}
    (same : [0x19,0x01] ++ separator.bytes ++ structure_.bytes = [0x19,0x01] ++ separator'.bytes ++ structure'.bytes) :
    separator = separator' ∧ structure_ = structure' := by
  obtain ⟨front,struct_hash⟩ := List.append_inj same (by simp [bytes_length])
  exact ⟨B256.bytes_inj (List.append_cancel_left front),B256.bytes_inj struct_hash⟩

-- One digest, one nomination under one domain; and no EIP-712 transaction has it. The hash function
-- is only asked not to collide on what is hashed for the two.
theorem nomination_hash_binds (sha256 keccak256 : List UInt8 → B256) (nomination : AgentNomination)
    (domain : AgentNominationDomain) (words : nomination.Words domain) :
    (∀ (other : AgentNomination) (back : AgentNominationDomain), other.Words back →
      (∀ data ∈ nomination.keccakInputs keccak256 domain, ∀ data' ∈ other.keccakInputs keccak256 back,
        keccak256 data = keccak256 data' → data = data') →
      nomination.eip712Hash keccak256 domain = other.eip712Hash keccak256 back → nomination = other ∧ domain = back) ∧
    ∀ (tx : Transaction) (typed : TypedDataDomain) (signature : BitVec 520), tx.signature = .eip712 typed signature →
      (∀ data ∈ nomination.keccakInputs keccak256 domain, ∀ data' ∈ tx.keccakInputs keccak256,
        keccak256 data = keccak256 data' → data = data') →
      tx.signingHash sha256 keccak256 ≠ some (nomination.eip712Hash keccak256 domain) := by
  constructor
  · intro other back alike apart same
    have whole := apart (nomination.eip712Data keccak256 domain) (by simp [keccakInputs])
      (other.eip712Data keccak256 back) (by simp [keccakInputs]) same
    obtain ⟨separators,structs⟩ := parts_inj whole
    have domains := apart (domainData keccak256 domain) (by simp [keccakInputs]) (domainData keccak256 back)
      (by simp [keccakInputs]) separators
    have contents := apart (nomination.structData keccak256) (by simp [keccakInputs]) (other.structData keccak256)
      (by simp [keccakInputs]) structs
    refine ⟨structData_inj words alike contents,domainData_inj words.chainId alike.chainId ?_ ?_ domains⟩
    · exact apart (utf8 domain.name) (by simp [keccakInputs]) (utf8 back.name) (by simp [keccakInputs])
    · exact apart (utf8 domain.version) (by simp [keccakInputs]) (utf8 back.version) (by simp [keccakInputs])
  · intro tx typed signature signed apart same
    unfold Transaction.signingHash Transaction.eip712SigningHash at same
    rw [signed] at same
    obtain ⟨data,written,digest⟩ := Option.map_eq_some_iff.mp same
    rw [Transaction.keccakInputs_eip712 signed] at apart
    have whole := apart (nomination.eip712Data keccak256 domain) (by simp [keccakInputs]) data (by simp [written]) digest.symm
    obtain ⟨structure_data,_,joined⟩ := Option.map_eq_some_iff.mp written
    obtain ⟨separators,_⟩ := parts_inj (whole.trans joined.symm)
    have domains := apart (domainData keccak256 domain) (by simp [keccakInputs]) (typed.hashData keccak256) (by simp) separators
    -- A transaction's domain has no contract, and its chain's number is a whole word.
    have lengths := congrArg List.length domains
    rw [domainData_length] at lengths
    simp [TypedDataDomain.hashData,bytes_length,Eip712Encode.uint,bigEndian_length] at lengths

end AgentNomination
end Pranklin
