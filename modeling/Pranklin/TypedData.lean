import Pranklin.Borsh

namespace Pranklin.TypedData
open Borsh

inductive Kind where
  | uint (bits : Nat)
  | address
  | bool
deriving DecidableEq

def Kind.text : Kind → String
  | .uint bits => "uint" ++ toString bits
  | .address => "address"
  | .bool => "bool"

inductive Value where
  | uint (n : Nat)
  | address (bytes : List UInt8)
  | bool (b : Bool)

def Value.Of : Value → Kind → Prop
  | .uint n,.uint bits => n < 2 ^ bits
  | .address bytes,.address => bytes.length = 20
  | .bool _,.bool => True
  | _,_ => False

def Value.encode : Value → List UInt8
  | .uint n => bigEndian 32 n
  | .address bytes => List.replicate 12 0 ++ bytes
  | .bool b => bigEndian 32 b.toNat

structure Member where
  kind : Kind
  name : String
  value : Value

structure Struct where
  name : String
  members : List Member

namespace Struct

def encodeType (struct : Struct) : String :=
  struct.name ++ "(" ++ String.intercalate "," (struct.members.map fun member => member.kind.text ++ " " ++ member.name) ++ ")"

def encodeData (struct : Struct) : List UInt8 := (struct.members.map fun member => member.value.encode).flatten

def Typed (struct : Struct) : Prop := ∀ member ∈ struct.members, member.value.Of member.kind

section Hash
variable (hash : List UInt8 → List UInt8)

def hashData (struct : Struct) : List UInt8 := hash struct.encodeType.toUTF8.data.toList ++ struct.encodeData

def signingData (separator : List UInt8) (struct : Struct) : List UInt8 :=
  [0x19,0x01] ++ separator ++ hash (struct.hashData hash)

end Hash

theorem encode_length {value : Value} {kind : Kind} (typed : value.Of kind) : value.encode.length = 32 := by
  cases value with
  | uint n => exact bigEndian_length 32 n
  | bool b => exact bigEndian_length 32 _
  | address bytes =>
    cases kind with
    | address =>
      have sized : bytes.length = 20 := typed
      rw [Value.encode,List.length_append,List.length_replicate,sized]
    | uint => cases typed
    | bool => cases typed

theorem encodeData_length {struct : Struct} (typed : struct.Typed) :
    struct.encodeData.length = 32 * struct.members.length := by
  obtain ⟨name,members⟩ := struct
  unfold encodeData
  dsimp only
  induction members with
  | nil => rfl
  | cons member rest ih =>
    have first := encode_length (typed member List.mem_cons_self)
    have later := ih fun other inside => typed other (List.mem_cons_of_mem _ inside)
    rw [List.map_cons,List.flatten_cons,List.length_append,first,later,List.length_cons]
    omega

-- A digest of the words in their place is another string, unless there is one word.
theorem hashData_ne {hash : List UInt8 → List UInt8} {struct : Struct} (typed : struct.Typed)
    (several : struct.members.length ≠ 1) {digest : List UInt8} (word : digest.length = 32) :
    hash struct.encodeType.toUTF8.data.toList ++ digest ≠ struct.hashData hash := by
  intro same
  have sized := congrArg List.length (List.append_cancel_left same)
  rw [encodeData_length typed] at sized
  omega

end Struct
end Pranklin.TypedData
