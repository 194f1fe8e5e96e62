import Pranklin.Nonces

namespace Pranklin
open Effect TransactionExecutor

structure AgentNominationDomain where
  name : String := "PranklinPerp"
  version : String := "1"
  chainId : Nat := 1
  verifyingContract : Address := .ofNat 0
deriving DecidableEq

structure AgentNomination where
  account : Address
  agent : Address
  permissions : Nat
  nonce : Nat
deriving DecidableEq

-- What the handlers take from libraries besides borsh and the signer of a transaction: hex
-- text, the text of an address, and the signer of a nomination's hash under a domain.
structure AgentCodec extends Codec where
  hexDecode : List Char → Except String (List UInt8)
  display : Address → String
  recoverNomination : AgentNomination → AgentNominationDomain → BitVec 520 → Except String Address

inductive RpcError where
  | invalidRequest (message : String)
  | authError (message : String)
deriving DecidableEq

namespace AgentRegistry

def isAuthorized (agents : AgentRegistry) (account agent : Address) (permission : Nat) : Bool :=
  match agents account agent with
  | none => false
  | some permissions => permissions &&& permission = permission

end AgentRegistry

namespace AuthService

def verifyTransaction (codec : Codec) (tx : Transaction) : Except AuthError Unit :=
  match codec.recoverAddress tx with
  | .error message => .error (.invalidSignature message)
  | .ok signer => if signer = tx.sender then .ok () else .error (.unauthorized signer tx.sender)

-- The nonce of the nomination is signed and not looked at.
def nominateAgent (codec : AgentCodec) (nomination : AgentNomination) (signature : BitVec 520)
    (domain : AgentNominationDomain) : Eff AgentRegistry AuthError Unit := do
  let recovered ← tries fun _ => (codec.recoverNomination nomination domain signature).mapError .invalidSignature
  if recovered = nomination.account then
    writes fun agents => agents.setAgent nomination.account nomination.agent nomination.permissions
  else throw (.unauthorized recovered nomination.account)

end AuthService

namespace Rpc

def trimHex : List Char → List Char
  | '0' :: 'x' :: rest => trimHex rest
  | hex => hex

def decodeHexTx (codec : AgentCodec) (hex : String) : Except RpcError (List UInt8) :=
  (codec.hexDecode (trimHex hex.toList)).mapError fun message => .invalidRequest ("Invalid hex: " ++ message)

def txErrorText (data : List UInt8) : TxExecutionError → String
  | .decode message => if maxTxSize < data.length then message else "Failed to decode transaction: " ++ message
  | _ => ""

def authErrorText (codec : AgentCodec) : AuthError → String
  | .invalidSignature message => "Invalid signature: " ++ message
  | .unauthorized signer account =>
    "Unauthorized: signer " ++ codec.display signer ++ " not authorized for account " ++ codec.display account

def decodeAndVerifyTx (codec : AgentCodec) (hex : String) : Except RpcError Transaction := do
  let txBytes ← decodeHexTx codec hex
  let tx ← (Transaction.decode codec.toCodec txBytes).mapError fun error =>
    .invalidRequest ("Invalid transaction: " ++ txErrorText txBytes error)
  (AuthService.verifyTransaction codec.toCodec tx).mapError fun error =>
    .authError ("Signature verification failed: " ++ authErrorText codec error)
  return tx

def setAgent (codec : AgentCodec) (hex : String) : Eff AgentRegistry RpcError Unit := do
  let tx ← tries fun _ => decodeAndVerifyTx codec hex
  match tx.payload with
  | .setAgent agent => writes fun agents => agents.setAgent tx.sender agent.agent agent.permissions
  | _ => throw (.invalidRequest "Invalid transaction payload")

def removeAgent (codec : AgentCodec) (hex : String) : Eff AgentRegistry RpcError Unit := do
  let tx ← tries fun _ => decodeAndVerifyTx codec hex
  match tx.payload with
  | .removeAgent agent => writes fun agents => agents.removeAgent tx.sender agent.agent
  | _ => throw (.invalidRequest "Invalid transaction payload")

end Rpc

inductive AgentStep where
  | rpcSetAgent (hex : String)
  | rpcRemoveAgent (hex : String)
  | nominateAgent (nomination : AgentNomination) (signature : BitVec 520) (domain : AgentNominationDomain)
  | block (txs : List (List UInt8))

namespace AgentStep

def after (codec : AgentCodec) (node : Node) : AgentStep → Node
  | .rpcSetAgent hex => {node with auth:=(exec (Rpc.setAgent codec hex) node.auth).2}
  | .rpcRemoveAgent hex => {node with auth:=(exec (Rpc.removeAgent codec hex) node.auth).2}
  | .nominateAgent nomination signature domain =>
    {node with auth:=(exec (AuthService.nominateAgent codec nomination signature domain) node.auth).2}
  | .block txs => (executeBatch codec.toCodec {} node txs).2

def run (codec : AgentCodec) (node : Node) (steps : List AgentStep) : Node := steps.foldl (after codec) node

end AgentStep

inductive Grant where
  | setAgent (nonce : Nat) (sender : Address) (agent : SetAgentTx)
  | removeAgent (nonce : Nat) (sender : Address) (agent : RemoveAgentTx)
  | nominate (nomination : AgentNomination)
deriving DecidableEq

namespace Grant

def ofTransaction (tx : Transaction) : Option Grant :=
  match tx.payload with
  | .setAgent agent => some (.setAgent tx.nonce tx.sender agent)
  | .removeAgent agent => some (.removeAgent tx.nonce tx.sender agent)
  | _ => none

def apply (agents : AgentRegistry) : Grant → AgentRegistry
  | .setAgent _ sender agent => agents.setAgent sender agent.agent agent.permissions
  | .removeAgent _ sender agent => agents.removeAgent sender agent.agent
  | .nominate nomination => agents.setAgent nomination.account nomination.agent nomination.permissions

def Stands (agents : AgentRegistry) : Grant → Prop
  | .setAgent _ sender agent => agents sender agent.agent = some agent.permissions
  | .removeAgent _ sender agent => agents sender agent.agent = none
  | .nominate nomination => agents nomination.account nomination.agent = some nomination.permissions

theorem update_standing {agents : AgentRegistry} {account agent : Address} {entry : Option Nat}
    (stands : agents account agent = entry) :
    Function.update agents account (Function.update (agents account) agent entry) = agents := by
  rw [← stands,Function.update_eq_self,Function.update_eq_self]

theorem apply_of_stands {agents : AgentRegistry} {grant : Grant} (stands : grant.Stands agents) :
    grant.apply agents = agents := by
  cases grant with
  | setAgent nonce sender agent => exact update_standing stands
  | removeAgent nonce sender agent => exact update_standing stands
  | nominate nomination => exact update_standing stands

theorem apply_stands (agents : AgentRegistry) (grant : Grant) : grant.Stands (grant.apply agents) := by
  cases grant <;> exact (congrFun (Function.update_self _ _ agents) _).trans (Function.update_self _ _ _)

end Grant

namespace Bench

def hexDigit (c : Char) : Option Nat :=
  if 48 ≤ c.toNat ∧ c.toNat < 58 then some (c.toNat - 48)
  else if 97 ≤ c.toNat ∧ c.toNat < 103 then some (c.toNat - 87)
  else none

def hexDecode : List Char → Except String (List UInt8)
  | [] => .ok []
  | [_] => .error "Odd number of digits"
  | high :: low :: rest =>
    match hexDigit high,hexDigit low with
    | some x,some y => (hexDecode rest).map (UInt8.ofNat (16 * x + y) :: ·)
    | _,_ => .error "Invalid character"

def hexDigits (data : List UInt8) : List Char :=
  data.flatMap fun byte => [Nat.digitChar (byte.toNat / 16),Nat.digitChar (byte.toNat % 16)]

theorem hexDigit_digitChar : ∀ n < 16, hexDigit (Nat.digitChar n) = some n := by decide

theorem hexDecode_hexDigits (data : List UInt8) : hexDecode (hexDigits data) = .ok data := by
  induction data with
  | nil => rfl
  | cons byte data ih =>
    have high : byte.toNat / 16 < 16 := Nat.div_lt_of_lt_mul byte.toNat_lt
    have low : byte.toNat % 16 < 16 := Nat.mod_lt _ (by decide)
    change hexDecode (_ :: _ :: hexDigits data) = _
    rw [hexDecode,hexDigit_digitChar _ high,hexDigit_digitChar _ low,ih]
    dsimp only
    rw [Nat.div_add_mod,UInt8.ofNat_toNat]
    rfl

theorem trimHex_hexDigits (data : List UInt8) : Rpc.trimHex (hexDigits data) = hexDigits data := by
  have digits : ∀ n < 16, Nat.digitChar n ≠ 'x' := by decide
  cases data with
  | nil => rfl
  | cons byte data =>
    have low := digits _ (Nat.mod_lt byte.toNat (by decide))
    change Rpc.trimHex (_ :: _ :: hexDigits data) = _ :: _ :: hexDigits data
    unfold Rpc.trimHex
    split
    · rename_i same
      exact absurd (List.cons.inj (List.cons.inj same).2).1 low
    · rfl

def hexText (tx : Transaction) : String := .ofList (hexDigits (written tx))

theorem decodeAndVerifyTx_hexText {codec : AgentCodec} (text : codec.hexDecode = hexDecode) (own : codec.toCodec = trusting)
    {tx : Transaction} (writes : tx.encode.isSome) (short : (written tx).length ≤ maxTxSize) :
    Rpc.decodeAndVerifyTx codec (hexText tx) = .ok tx := by
  unfold Rpc.decodeAndVerifyTx Rpc.decodeHexTx hexText
  rw [String.toList_ofList,trimHex_hexDigits,text,hexDecode_hexDigits,own]
  change (do
    let tx ← (Transaction.decode trusting (written tx)).mapError _
    (AuthService.verifyTransaction trusting tx).mapError _
    return tx) = _
  rw [decode_written writes short]
  change (do
    (AuthService.verifyTransaction trusting tx).mapError _
    return tx) = _
  unfold AuthService.verifyTransaction trusting Codec.borsh
  dsimp only
  rw [if_pos rfl]
  rfl

end Bench
end Pranklin
