import Mathlib.Algebra.Order.Ring.Nat
import Mathlib.Tactic.Common

namespace Pranklin.Borsh

-- A prefix code: what is written is read back in front of anything, and what is read was
-- written. A value outside the format is not written.
structure Format (α : Type) where
  encode : α → Option (List UInt8)
  decode : List UInt8 → Option (α × List UInt8)
  decode_encode : ∀ a bytes rest, encode a = some bytes → decode (bytes ++ rest) = some (a,rest)
  encode_decode : ∀ a bytes rest, decode bytes = some (a,rest) → ∃ front, encode a = some front ∧ bytes = front ++ rest

variable {α β : Type} {data : List UInt8}

def bigEndian : Nat → Nat → List UInt8
  | 0,_ => []
  | width + 1,n => (n / 256 ^ width).toUInt8 :: bigEndian width n

def littleEndian : Nat → Nat → List UInt8
  | 0,_ => []
  | width + 1,n => n.toUInt8 :: littleEndian width (n / 256)

theorem bigEndian_length (width n : Nat) : (bigEndian width n).length = width := by
  induction width with
  | zero => rfl
  | succ width ih => rw [bigEndian,List.length_cons,ih]

theorem littleEndian_length (width n : Nat) : (littleEndian width n).length = width := by
  induction width generalizing n with
  | zero => rfl
  | succ width ih => rw [littleEndian,List.length_cons,ih]

theorem toUInt8_inj {n m : Nat} (same : n.toUInt8 = m.toUInt8) : n % 256 = m % 256 := by
  have values := congrArg UInt8.toNat same
  simpa using values

theorem bigEndian_mod {width n m : Nat} (same : bigEndian width n = bigEndian width m) :
    n % 256 ^ width = m % 256 ^ width := by
  induction width with
  | zero => rw [Nat.pow_zero,Nat.mod_one,Nat.mod_one]
  | succ width ih =>
    obtain ⟨first,rest⟩ := List.cons.inj same
    rw [Nat.pow_succ,Nat.mod_mul,Nat.mod_mul,ih rest,toUInt8_inj first]

theorem littleEndian_mod {width n m : Nat} (same : littleEndian width n = littleEndian width m) :
    n % 256 ^ width = m % 256 ^ width := by
  induction width generalizing n m with
  | zero => rw [Nat.pow_zero,Nat.mod_one,Nat.mod_one]
  | succ width ih =>
    obtain ⟨first,rest⟩ := List.cons.inj same
    rw [Nat.pow_succ',Nat.mod_mul,Nat.mod_mul,toUInt8_inj first,ih rest]

theorem bigEndian_inj {width n m : Nat} (one : n < 256 ^ width) (other : m < 256 ^ width)
    (same : bigEndian width n = bigEndian width m) : n = m := by
  have residues := bigEndian_mod same
  rwa [Nat.mod_eq_of_lt one,Nat.mod_eq_of_lt other] at residues

theorem littleEndian_inj {width n m : Nat} (one : n < 256 ^ width) (other : m < 256 ^ width)
    (same : littleEndian width n = littleEndian width m) : n = m := by
  have residues := littleEndian_mod same
  rwa [Nat.mod_eq_of_lt one,Nat.mod_eq_of_lt other] at residues

theorem blocks_inj {width : Nat} (positive : 0 < width) {one other : List (List UInt8)}
    (left : ∀ block ∈ one, block.length = width) (right : ∀ block ∈ other, block.length = width)
    (same : one.flatten = other.flatten) : one = other := by
  induction one generalizing other with
  | nil =>
    cases other with
    | nil => rfl
    | cons block other =>
      have short := congrArg List.length same
      have sized := right block List.mem_cons_self
      simp only [List.flatten_nil,List.flatten_cons,List.length_nil,List.length_append] at short
      omega
  | cons block one ih =>
    have sized := left block List.mem_cons_self
    cases other with
    | nil =>
      have short := congrArg List.length same
      simp only [List.flatten_nil,List.flatten_cons,List.length_nil,List.length_append] at short
      omega
    | cons first other =>
      have alike := right first List.mem_cons_self
      obtain ⟨head,rest⟩ := List.append_inj same (sized.trans alike.symm)
      rw [head,ih (fun b inside => left b (List.mem_cons_of_mem _ inside))
        (fun b inside => right b (List.mem_cons_of_mem _ inside)) rest]

namespace Format

def iso (format : Format α) (make : α → Option β) (read : β → Option α)
    (law : ∀ a b, make a = some b ↔ read b = some a) : Format β where
  encode b := (read b).bind format.encode
  decode bytes := (format.decode bytes).bind fun (a,rest) => (make a).map fun b => (b,rest)
  decode_encode := by
    intro b bytes rest written
    obtain ⟨a,known,written⟩ := Option.bind_eq_some_iff.mp written
    rw [format.decode_encode a bytes rest written]
    simp [(law a b).mpr known]
  encode_decode := by
    intro b bytes rest found
    obtain ⟨⟨a,left⟩,found,turned⟩ := Option.bind_eq_some_iff.mp found
    obtain ⟨b',made,same⟩ := Option.map_eq_some_iff.mp turned
    cases same
    obtain ⟨front,written,split⟩ := format.encode_decode a bytes _ found
    exact ⟨front,by rw [(law a b).mp made]; exact written,split⟩

def via (format : Format α) (make : α → β) (read : β → α) (left : ∀ a, read (make a) = a) (right : ∀ b, make (read b) = b) :
    Format β :=
  format.iso (fun a => some (make a)) (fun b => some (read b)) fun a b =>
    ⟨fun same => by cases same; rw [left],fun same => by cases same; rw [right]⟩

def variant (format : Format α) (make : α → β) (read : β → Option α) (law : ∀ a b, read b = some a ↔ make a = b) :
    Format β :=
  format.iso (fun a => some (make a)) read fun a b => by rw [law a b,Option.some.injEq]

def nothing : Format Unit where
  encode _ := some []
  decode bytes := some ((),bytes)
  decode_encode _ bytes rest written := by cases written; rfl
  encode_decode _ bytes rest found := by cases found; exact ⟨[],rfl,rfl⟩

def byte : Format Nat where
  encode n := if n < 256 then some [n.toUInt8] else none
  decode
    | [] => none
    | first :: rest => some (first.toNat,rest)
  decode_encode := by
    intro n bytes rest written
    split at written
    · rename_i small
      cases written
      simp [Nat.mod_eq_of_lt small]
    · cases written
  encode_decode := by
    intro n bytes rest found
    cases bytes with
    | nil => cases found
    | cons first back =>
      cases found
      exact ⟨[first],by simp [first.toNat_lt],rfl⟩

def pair (one : Format α) (other : Format β) : Format (α × β) where
  encode both := (one.encode both.1).bind fun front => (other.encode both.2).map fun back => front ++ back
  decode bytes := (one.decode bytes).bind fun (a,rest) => (other.decode rest).map fun (b,rest) => ((a,b),rest)
  decode_encode := by
    intro ⟨a,b⟩ bytes rest written
    obtain ⟨front,first,written⟩ := Option.bind_eq_some_iff.mp written
    obtain ⟨back,second,same⟩ := Option.map_eq_some_iff.mp written
    subst same
    rw [List.append_assoc,one.decode_encode a front _ first]
    simp [other.decode_encode b back rest second]
  encode_decode := by
    intro ⟨a,b⟩ bytes rest found
    obtain ⟨⟨a',middle⟩,first,found⟩ := Option.bind_eq_some_iff.mp found
    obtain ⟨⟨b',left⟩,second,same⟩ := Option.map_eq_some_iff.mp found
    cases same
    obtain ⟨front,writtenFirst,split⟩ := one.encode_decode _ _ _ first
    obtain ⟨back,writtenSecond,again⟩ := other.encode_decode _ _ _ second
    refine ⟨front ++ back,?_,?_⟩
    · rw [writtenFirst,Option.bind_some,writtenSecond]
      rfl
    · rw [split,again,List.append_assoc]

def word : Nat → Format Nat
  | 0 => nothing.iso (fun _ => some 0) (fun n => if n = 0 then some () else none) fun _ n => by
    by_cases zero : n = 0 <;> simp [zero,eq_comm]
  | width + 1 => (byte.pair (word width)).iso
      (fun both => if both.1 < 256 then some (both.1 + 256 * both.2) else none) (fun n => some (n % 256,n / 256))
      fun both n => by
    obtain ⟨low,high⟩ := both
    by_cases small : low < 256
    · simp only [if_pos small,Option.some.injEq,Prod.mk.injEq]
      omega
    · simp only [if_neg small,Option.some.injEq,Prod.mk.injEq,reduceCtorEq,false_iff]
      omega

def raw : Nat → Format Nat
  | 0 => nothing.iso (fun _ => some 0) (fun n => if n = 0 then some () else none) fun _ n => by
    by_cases zero : n = 0 <;> simp [zero,eq_comm]
  | width + 1 => (byte.pair (raw width)).iso
      (fun both => if both.2 < 256 ^ width then some (both.1 * 256 ^ width + both.2) else none)
      (fun n => some (n / 256 ^ width,n % 256 ^ width)) fun both n => by
    obtain ⟨high,low⟩ := both
    have positive : 0 < 256 ^ width := Nat.pow_pos (by decide)
    by_cases small : low < 256 ^ width
    · simp only [if_pos small,Option.some.injEq,Prod.mk.injEq]
      constructor
      · intro same
        subst same
        rw [Nat.mul_comm,Nat.mul_add_div positive,Nat.div_eq_of_lt small,Nat.mul_add_mod,Nat.mod_eq_of_lt small]
        exact ⟨Nat.add_zero _,rfl⟩
      · intro ⟨top,bottom⟩
        rw [← top,← bottom,Nat.mul_comm]
        exact Nat.div_add_mod n _
    · simp only [if_neg small,Option.some.injEq,Prod.mk.injEq,reduceCtorEq,false_iff]
      intro ⟨_,bottom⟩
      exact small (bottom ▸ Nat.mod_lt n positive)

def below (format : Format Nat) (bound : Nat) : Format (Fin bound) :=
  format.iso (fun n => if small : n < bound then some ⟨n,small⟩ else none) (fun i => some i.val) fun n i => by
    by_cases small : n < bound
    · simp [small,Fin.ext_iff,eq_comm]
    · simp only [dif_neg small,reduceCtorEq,Option.some.injEq,false_iff]
      exact fun same => small (same ▸ i.isLt)

def bytes : Format (List UInt8) where
  encode content := ((word 4).encode content.length).map fun front => front ++ content
  decode data := ((word 4).decode data).bind fun (length,rest) =>
    if length ≤ rest.length then some (rest.take length,rest.drop length) else none
  decode_encode := by
    intro content data rest written
    obtain ⟨front,sized,same⟩ := Option.map_eq_some_iff.mp written
    subst same
    rw [List.append_assoc,(word 4).decode_encode _ front _ sized]
    simp
  encode_decode := by
    intro content data rest found
    obtain ⟨⟨length,back⟩,sized,found⟩ := Option.bind_eq_some_iff.mp found
    dsimp only at found
    split at found
    · rename_i enough
      cases found
      obtain ⟨front,written,split⟩ := (word 4).encode_decode _ _ _ sized
      refine ⟨front ++ back.take length,?_,?_⟩
      · rw [List.length_take,Nat.min_eq_left enough,written]
        rfl
      · rw [split,List.append_assoc,List.take_append_drop]
    · cases found

def only [DecidableEq β] (b : β) : Format β :=
  nothing.iso (fun _ => some b) (fun c => if c = b then some () else none) fun _ c => by
    by_cases same : c = b
    · simp [same]
    · simp [same,Ne.symm same]

def enum (tag : β → Nat) (variants : List (Format β))
    (tagged : ∀ entry ∈ variants.zipIdx, ∀ b bytes, entry.1.encode b = some bytes → tag b = entry.2) : Format β where
  encode b := (variants[tag b]?).bind fun variant =>
    (byte.encode (tag b)).bind fun front => (variant.encode b).map fun back => front ++ back
  decode data := (byte.decode data).bind fun (n,rest) => (variants[n]?).bind fun variant => variant.decode rest
  decode_encode := by
    intro b bytes rest written
    obtain ⟨variant,chosen,written⟩ := Option.bind_eq_some_iff.mp written
    obtain ⟨front,first,written⟩ := Option.bind_eq_some_iff.mp written
    obtain ⟨back,second,same⟩ := Option.map_eq_some_iff.mp written
    subst same
    rw [List.append_assoc,byte.decode_encode _ front _ first,Option.bind_some]
    dsimp only
    rw [chosen,Option.bind_some]
    exact variant.decode_encode b back rest second
  encode_decode := by
    intro b bytes rest found
    obtain ⟨⟨n,middle⟩,first,found⟩ := Option.bind_eq_some_iff.mp found
    obtain ⟨variant,chosen,second⟩ := Option.bind_eq_some_iff.mp found
    obtain ⟨front,writtenFirst,split⟩ := byte.encode_decode _ _ _ first
    obtain ⟨back,writtenSecond,again⟩ := variant.encode_decode _ _ _ second
    have own : tag b = n := tagged (variant,n) (List.mk_mem_zipIdx_iff_getElem?.mpr chosen) b back writtenSecond
    refine ⟨front ++ back,?_,?_⟩
    · rw [own,chosen,Option.bind_some,writtenFirst,Option.bind_some,writtenSecond]
      rfl
    · rw [split,again,List.append_assoc]

theorem encode_only [DecidableEq β] {b c : β} (written : (only b).encode c = some data) : c = b := by
  obtain ⟨_,known,_⟩ := Option.bind_eq_some_iff.mp written
  by_contra other
  dsimp only at known
  rw [if_neg other] at known
  cases known

theorem encode_iso {format : Format α} {make : α → Option β} {read : β → Option α}
    {law : ∀ a b, make a = some b ↔ read b = some a} {b : β} (written : (format.iso make read law).encode b = some data) :
    ∃ a, read b = some a := by
  obtain ⟨a,known,_⟩ := Option.bind_eq_some_iff.mp written
  exact ⟨a,known⟩

def boolean : Format Bool := enum (fun b => b.toNat) [only false,only true] (by
  simp only [List.zipIdx_cons,List.zipIdx_nil,List.forall_mem_cons]
  refine ⟨fun b _ written => ?_,fun b _ written => ?_,List.forall_mem_nil _⟩
  · rw [encode_only written]
    rfl
  · rw [encode_only written]
    rfl)

def option (format : Format α) : Format (Option α) := enum (fun o => o.isSome.toNat)
  [nothing.variant (fun _ => none) (fun o => if o.isNone then some () else none) fun _ o => by cases o <;> simp,
    format.variant some id fun a o => by rw [id,eq_comm]] (by
  simp only [List.zipIdx_cons,List.zipIdx_nil,List.forall_mem_cons]
  refine ⟨fun o _ written => ?_,fun o _ written => ?_,List.forall_mem_nil _⟩
  · obtain ⟨_,known⟩ := encode_iso written
    cases o with
    | none => rfl
    | some a => cases known
  · obtain ⟨_,known⟩ := encode_iso written
    cases o with
    | none => cases known
    | some a => rfl)

def text : Format String := bytes.iso (fun content => String.fromUTF8? ⟨content.toArray⟩)
  (fun s => some s.toUTF8.data.toList) fun content s => by
    unfold String.fromUTF8?
    constructor
    · intro made
      split at made
      · cases made
        rfl
      · cases made
    · intro same
      cases same
      have valid : ByteArray.IsValidUTF8 ⟨s.toUTF8.data.toList.toArray⟩ := by
        rw [Array.toArray_toList]
        exact s.isValidUTF8
      rw [dif_pos valid]
      refine congrArg some (String.toByteArray_inj.mp ?_)
      change ByteArray.mk _ = _
      rw [Array.toArray_toList]
      rfl

-- `from_slice`: nothing may be left over.
def fromSlice (format : Format α) (data : List UInt8) : Option α :=
  match format.decode data with
  | some (a,[]) => some a
  | _ => none

theorem fromSlice_iff (format : Format α) (data : List UInt8) (a : α) :
    format.fromSlice data = some a ↔ format.encode a = some data := by
  constructor
  · intro read
    unfold fromSlice at read
    split at read
    · rename_i found
      cases read
      obtain ⟨front,written,split⟩ := format.encode_decode _ _ _ found
      rw [written,split,List.append_nil]
    · cases read
  · intro written
    have found := format.decode_encode a data [] written
    rw [List.append_nil] at found
    rw [fromSlice,found]

theorem encode_inj (format : Format α) {a b : α} (one : format.encode a = some data) (other : format.encode b = some data) :
    a = b := Option.some.inj (((format.fromSlice_iff data a).mpr one).symm.trans ((format.fromSlice_iff data b).mpr other))

def Writes (format : Format α) (a : α) : Prop := (format.encode a).isSome

theorem writes_iff {format : Format α} {a : α} : format.Writes a ↔ ∃ data, format.encode a = some data :=
  Option.isSome_iff_exists

theorem writes_iso {format : Format α} {make : α → Option β} {read : β → Option α}
    {law : ∀ a b, make a = some b ↔ read b = some a} {b : β} :
    (format.iso make read law).Writes b ↔ ∃ a, read b = some a ∧ format.Writes a := by
  unfold Writes
  change ((read b).bind format.encode).isSome = true ↔ _
  cases read b <;> simp

theorem writes_total {format : Format α} {make : α → Option β} {read : β → α}
    {law : ∀ a b, make a = some b ↔ some (read b) = some a} {b : β} :
    (format.iso make (fun b => some (read b)) law).Writes b ↔ format.Writes (read b) := by
  rw [writes_iso]
  simp

theorem writes_via {format : Format α} {make : α → β} {read : β → α} {left : ∀ a, read (make a) = a}
    {right : ∀ b, make (read b) = b} {b : β} : (format.via make read left right).Writes b ↔ format.Writes (read b) :=
  writes_total

theorem writes_variant {format : Format α} {make : α → β} {read : β → Option α} {law : ∀ a b, read b = some a ↔ make a = b}
    {b : β} : (format.variant make read law).Writes b ↔ ∃ a, read b = some a ∧ format.Writes a := writes_iso

theorem writes_nothing : nothing.Writes () := rfl

theorem writes_pair {one : Format α} {other : Format β} {both : α × β} :
    (one.pair other).Writes both ↔ one.Writes both.1 ∧ other.Writes both.2 := by
  unfold Writes
  change ((one.encode both.1).bind fun front => (other.encode both.2).map fun back => front ++ back).isSome = true ↔ _
  cases one.encode both.1 <;> cases other.encode both.2 <;> simp

theorem writes_byte {n : Nat} : byte.Writes n ↔ n < 256 := by
  unfold Writes byte
  by_cases small : n < 256 <;> simp [small]

theorem writes_word {width n : Nat} : (word width).Writes n ↔ n < 256 ^ width := by
  induction width generalizing n with
  | zero =>
    rw [word,writes_iso]
    by_cases zero : n = 0 <;> simp [zero,Writes,nothing]
  | succ width ih =>
    rw [word,writes_total,writes_pair,writes_byte,ih,Nat.pow_succ]
    constructor
    · intro both
      exact (Nat.div_lt_iff_lt_mul (by decide)).mp both.2
    · intro small
      exact ⟨Nat.mod_lt _ (by decide),(Nat.div_lt_iff_lt_mul (by decide)).mpr small⟩

theorem writes_raw {width n : Nat} : (raw width).Writes n ↔ n < 256 ^ width := by
  induction width generalizing n with
  | zero =>
    rw [raw,writes_iso]
    by_cases zero : n = 0 <;> simp [zero,Writes,nothing]
  | succ width ih =>
    have positive : 0 < 256 ^ width := Nat.pow_pos (by decide)
    rw [raw,writes_total,writes_pair,writes_byte,ih,Nat.pow_succ,Nat.mul_comm]
    constructor
    · intro both
      exact (Nat.div_lt_iff_lt_mul positive).mp both.1
    · intro small
      exact ⟨(Nat.div_lt_iff_lt_mul positive).mpr small,Nat.mod_lt _ positive⟩

theorem writes_below {format : Format Nat} {bound : Nat} {i : Fin bound} :
    (format.below bound).Writes i ↔ format.Writes i.val := writes_total

theorem writes_bytes {content : List UInt8} : bytes.Writes content ↔ content.length < 2 ^ 32 := by
  have sized := @writes_word 4 content.length
  unfold Writes at sized
  unfold Writes bytes
  rw [Option.isSome_map,sized]
  exact Iff.rfl

theorem writes_text {s : String} : text.Writes s ↔ s.toUTF8.data.toList.length < 2 ^ 32 :=
  writes_total.trans writes_bytes

theorem writes_enum {tag : β → Nat} {variants : List (Format β)}
    {tagged : ∀ entry ∈ variants.zipIdx, ∀ b bytes, entry.1.encode b = some bytes → tag b = entry.2} {b : β}
    {variant : Format β} (chosen : variants[tag b]? = some variant) (small : tag b < 256) :
    (enum tag variants tagged).Writes b ↔ variant.Writes b := by
  obtain ⟨front,first⟩ := writes_iff.mp (writes_byte.mpr small)
  unfold Writes enum
  dsimp only
  rw [chosen,Option.bind_some,first,Option.bind_some,Option.isSome_map]

theorem writes_only [DecidableEq β] (b : β) : (only b).Writes b := by
  unfold Writes only iso nothing
  simp

theorem writes_boolean (b : Bool) : boolean.Writes b := by
  cases b with
  | false => exact (writes_enum rfl (by decide)).mpr (writes_only false)
  | true => exact (writes_enum rfl (by decide)).mpr (writes_only true)

theorem writes_option {format : Format α} {o : Option α} : (option format).Writes o ↔ ∀ a ∈ o, format.Writes a := by
  unfold option
  cases o with
  | none =>
    rw [writes_enum rfl (by simp),writes_variant]
    exact iff_of_true ⟨(),rfl,writes_nothing⟩ (by simp)
  | some a =>
    rw [writes_enum rfl (by simp),writes_variant]
    simp

section Layout

theorem toUInt8_mod (n exponent : Nat) : (n % 256 ^ (exponent + 1)).toUInt8 = n.toUInt8 := by
  apply UInt8.toNat_inj.mp
  simp [Nat.pow_succ]

theorem bigEndian_low {width exponent n : Nat} (within : width ≤ exponent) :
    bigEndian width (n % 256 ^ exponent) = bigEndian width n := by
  induction width with
  | zero => rfl
  | succ width ih =>
    obtain ⟨rest,same⟩ := Nat.exists_eq_add_of_lt within
    have high : n % 256 ^ exponent / 256 ^ width = n / 256 ^ width % 256 ^ (rest + 1) := by
      rw [same,Nat.add_assoc,Nat.pow_add,Nat.mod_mul_right_div_self]
    rw [bigEndian,bigEndian,high,toUInt8_mod,ih (Nat.le_of_succ_le within)]

theorem encode_byte {n : Nat} (small : n < 256) : byte.encode n = some [n.toUInt8] := if_pos small

theorem encode_pair {one : Format α} {other : Format β} {a : α} {b : β} {front back : List UInt8}
    (first : one.encode a = some front) (second : other.encode b = some back) :
    (one.pair other).encode (a,b) = some (front ++ back) := by
  change (one.encode a).bind _ = _
  rw [first,Option.bind_some]
  change (other.encode b).map _ = _
  rw [second]
  rfl

theorem encode_enum {tag : β → Nat} {variants : List (Format β)}
    {tagged : ∀ entry ∈ variants.zipIdx, ∀ b bytes, entry.1.encode b = some bytes → tag b = entry.2} {b : β}
    {variant : Format β} (chosen : variants[tag b]? = some variant) (small : tag b < 256)
    (written : variant.encode b = some data) : (enum tag variants tagged).encode b = some ((tag b).toUInt8 :: data) := by
  unfold enum
  dsimp only
  rw [chosen,Option.bind_some,encode_byte small,Option.bind_some,written]
  rfl

theorem encode_word {width n : Nat} (small : n < 256 ^ width) : (word width).encode n = some (littleEndian width n) := by
  induction width generalizing n with
  | zero =>
    obtain rfl : n = 0 := Nat.lt_one_iff.mp small
    rfl
  | succ width ih =>
    rw [Nat.pow_succ] at small
    have low := encode_byte (Nat.mod_lt n (by decide : 0 < 256))
    have high := ih (Nat.div_lt_of_lt_mul (Nat.mul_comm .. ▸ small))
    refine (encode_pair low high).trans (congrArg some ?_)
    rw [littleEndian,List.singleton_append,← toUInt8_mod n 0,Nat.zero_add,Nat.pow_one]

theorem encode_raw {width n : Nat} (small : n < 256 ^ width) : (raw width).encode n = some (bigEndian width n) := by
  induction width generalizing n with
  | zero =>
    obtain rfl : n = 0 := Nat.lt_one_iff.mp small
    rfl
  | succ width ih =>
    have positive : 0 < 256 ^ width := Nat.pow_pos (by decide)
    rw [Nat.pow_succ] at small
    have high := encode_byte (Nat.div_lt_of_lt_mul small)
    have low := ih (Nat.mod_lt n positive)
    refine (encode_pair high low).trans (congrArg some ?_)
    rw [bigEndian,List.singleton_append,bigEndian_low (Nat.le_refl width)]

end Layout

end Format

-- An encoding of which only the one direction is known: every value is written, and is read back in
-- front of anything.
structure Code (α : Type) where
  encode : α → List UInt8
  decode : List UInt8 → Option (α × List UInt8)
  decode_encode : ∀ a rest, decode (encode a ++ rest) = some (a,rest)

namespace Code

def fromSlice (code : Code α) (data : List UInt8) : Option α :=
  match code.decode data with
  | some (a,[]) => some a
  | _ => none

theorem decode_map (code : Code α) (make : α → β) (a : α) (rest : List UInt8) :
    (code.decode (code.encode a ++ rest)).map (fun (a,rest) => (make a,rest)) = some (make a,rest) := by
  rw [code.decode_encode]
  rfl

theorem fromSlice_encode (code : Code α) (a : α) : code.fromSlice (code.encode a) = some a := by
  have found := code.decode_encode a []
  rw [List.append_nil] at found
  rw [fromSlice,found]

theorem encode_inj (code : Code α) {a b : α} (same : code.encode a = code.encode b) : a = b :=
  Option.some.inj ((code.fromSlice_encode a).symm.trans ((congrArg code.fromSlice same).trans (code.fromSlice_encode b)))

def pair (one : Code α) (other : Code β) : Code (α × β) where
  encode both := one.encode both.1 ++ other.encode both.2
  decode data := (one.decode data).bind fun (a,rest) => (other.decode rest).map fun (b,rest) => ((a,b),rest)
  decode_encode both rest := by
    rw [List.append_assoc,one.decode_encode,Option.bind_some]
    dsimp only
    rw [other.decode_encode]
    rfl

end Code

def Format.code (format : Format α) (total : ∀ a, format.Writes a) : Code α where
  encode a := (format.encode a).get (total a)
  decode := format.decode
  decode_encode a rest := format.decode_encode a _ rest (Option.some_get _).symm

end Pranklin.Borsh
