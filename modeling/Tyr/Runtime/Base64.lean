import Tyr.Lib.Base64
import Tyr.Lib.Heap

/-
  `Runtime/Base64.c`.

  A pointer is modelled by the bytes that can be read from it on; reading or writing past them,
  or through the unchecked result of a failed allocation, is a `MemoryFault`. `host` says whether
  the machine is big-endian, `alloc n` whether an allocation of `n` bytes succeeds. Both
  functions' buffers start with 8 bytes of length.
-/

namespace Tyr

namespace Runtime

/-! ## Memory -/

inductive MemoryFault where
  | read (i : Nat)
  | write (i : Nat)
  | null
  deriving DecidableEq

def readByte (m : List Byte) (i : Nat) : Except MemoryFault Byte :=
  match m[i]? with
  | some b => .ok b
  | none => .error (.read i)

def writeByte (m : List Byte) (i : Nat) (b : Byte) : Except MemoryFault (List Byte) :=
  if i < m.length then .ok (m.set i b) else .error (.write i)

/-- The bytes of a `uint64_t`. -/
def encodeU64 (host : Bool) (n : Nat) : List Byte := inOrder host (toLE 8 n)

def readU64 (host : Bool) (m : List Byte) : Except MemoryFault Nat :=
  if 8 ≤ m.length then .ok (ofLE (inOrder host (m.take 8))) else .error (.read m.length)

def writeU64 (host : Bool) (m : List Byte) (n : Nat) : Except MemoryFault (List Byte) :=
  if 8 ≤ m.length then .ok (splice m 0 (encodeU64 host n)) else .error (.write m.length)

/-- `calloc`, or `malloc` and `memset`: nobody checks for NULL before the first write. -/
def allocateZeroed (alloc : Nat → Bool) (n : Nat) : Except MemoryFault (List Byte) :=
  if alloc n then .ok (List.replicate n 0) else .error .null

/-! ## Characters -/

/-- The value of a C comparison. -/
def flag (b : Bool) : BitVec 32 := if b then 1 else 0

def b64_index_to_char (index : BitVec 32) : Byte :=
  (index + 65 * flag (index < 26) + (97 - 26) * flag (index ≥ 26 && index < 52) +
    (48 - 52) * flag (index ≥ 52 && index < 62) + (45 - 62) * flag (index = 62) +
    (95 - 63) * flag (index = 63) + (61 - 64) * flag (index = 64)).setWidth 8

def b64_char_to_index (c : Byte) : BitVec 32 :=
  if c ≥ 65 ∧ c ≤ 90 then c.setWidth 32 - 65
  else if c ≥ 97 ∧ c ≤ 122 then c.setWidth 32 - 97 + 26
  else if c ≥ 48 ∧ c ≤ 57 then c.setWidth 32 - 48 + 52
  else if c = 45 then 62
  else if c = 95 then 63
  else if c = 61 then 64
  else 0

/-! ## `tyr_serialize_to_base64` -/

structure Encoding where
  str_iter : Nat
  b64_iter : Nat
  b64_str : List Byte

section Encode

variable (serialized : List Byte) (serialized_len num_pad b64_len : Nat)

/-- The body of the loop over `j`. -/
def packByte (st : BitVec 32 × Nat) (j : Nat) : Except MemoryFault (BitVec 32 × Nat) := do
  let (packed, str_iter) := st
  let byte ← readByte serialized (8 + str_iter)
  pure (packed ||| (flag (str_iter < serialized_len) * byte.setWidth 32) <<< (8 * j), str_iter + 1)

/-- The character for the `k`-th index of a group. -/
def b64Char (packed : BitVec 32) (b64_iter k : Nat) : Byte :=
  b64_index_to_char
    (if b64_iter ≥ (b64_len + 2 ^ 64 - num_pad) % 2 ^ 64 then 64
    else (packed &&& (0b111111 <<< (k * 6))) >>> (k * 6))

/-- The body of the loop over `k`. -/
def putChar (packed : BitVec 32) (st : Nat × List Byte) (k : Nat) :
    Except MemoryFault (Nat × List Byte) := do
  let (b64_iter, b64_str) := st
  let b64_str ← writeByte b64_str (8 + b64_iter) (b64Char num_pad b64_len packed b64_iter k)
  pure (b64_iter + 1, b64_str)

/-- The body of the loop over `i`. -/
def encodeGroup (st : Encoding) : Except MemoryFault Encoding := do
  let (packed, str_iter) ← [2, 1, 0].foldlM (packByte serialized serialized_len) (0, st.str_iter)
  let (b64_iter, b64_str) ← [3, 2, 1, 0].foldlM (putChar num_pad b64_len packed)
    (st.b64_iter, st.b64_str)
  pure ⟨str_iter, b64_iter, b64_str⟩

def encodeGroups : Nat → Encoding → Except MemoryFault Encoding
  | 0, st => pure st
  | n + 1, st => do
    let st ← encodeGroup serialized serialized_len num_pad b64_len st
    encodeGroups n st

end Encode

/-- `s` returns NULL or a pointer. -/
def tyr_serialize_to_base64 {α : Type} (host : Bool) (alloc : Nat → Bool)
    (s : α → Option (List Byte)) (tyr_struct_ptr : α) : Except MemoryFault (Option (List Byte)) :=
  match s tyr_struct_ptr with
  | none => pure none
  | some serialized => do
    let serialized_len ← readU64 host serialized
    let num_pad := (3 - serialized_len % 3) % 3
    let packed_size := serialized_len / 3 + if serialized_len % 3 ≠ 0 then 1 else 0
    let b64_len := packed_size * 4 % 2 ^ 64
    let b64_str ← allocateZeroed alloc ((b64_len + 8) % 2 ^ 64)
    let b64_str ← writeU64 host b64_str b64_len
    let st ← encodeGroups serialized serialized_len num_pad b64_len packed_size ⟨0, 0, b64_str⟩
    pure (some st.b64_str)

/-! ## `tyr_deserialize_from_base64` -/

structure Decoding where
  b64_iter : Nat
  decoded_iter : Nat
  num_pad : BitVec 8
  decoded_serialized : List Byte

section Decode

variable (b64 : List Byte)

/-- The body of the loop over `j`: padding is counted and not stepped over. -/
def takeChar (st : BitVec 32 × Nat × BitVec 8) (j : Nat) :
    Except MemoryFault (BitVec 32 × Nat × BitVec 8) := do
  let (packed, b64_iter, num_pad) := st
  let c ← readByte b64 (8 + b64_iter)
  let b64_index := b64_char_to_index c
  if b64_index = 64 then pure (packed, b64_iter, num_pad + 1)
  else pure (packed ||| (flag (b64_index ≠ 64) * b64_index) <<< (6 * j), b64_iter + 1, num_pad)

/-- The body of the loop over `k`. -/
def putByte (packed : BitVec 32) (st : Nat × List Byte) (k : Nat) :
    Except MemoryFault (Nat × List Byte) := do
  let (decoded_iter, decoded) := st
  let decoded ← writeByte decoded (8 + decoded_iter)
    (((packed &&& (0xff <<< (8 * k))) >>> (8 * k)).setWidth 8)
  pure (decoded_iter + 1, decoded)

/-- The body of the loop over `i`. -/
def decodeGroup (st : Decoding) : Except MemoryFault Decoding := do
  let (packed, b64_iter, num_pad) ← [3, 2, 1, 0].foldlM (takeChar b64) (0, st.b64_iter, st.num_pad)
  let (decoded_iter, decoded) ← [2, 1, 0].foldlM (putByte packed)
    (st.decoded_iter, st.decoded_serialized)
  pure ⟨b64_iter, decoded_iter, num_pad, decoded⟩

def decodeGroups : Nat → Decoding → Except MemoryFault Decoding
  | 0, st => pure st
  | n + 1, st => do
    let st ← decodeGroup b64 st
    decodeGroups n st

end Decode

/-- The buffers `d` was called on, and what is returned (`none` is NULL). -/
structure Outcome (R : Type) where
  calls : List (List Byte)
  returned : Option R

def tyr_deserialize_from_base64 {R : Type} (host : Bool) (alloc : Nat → Bool)
    (d : List Byte → Option R) (b64 : List Byte) : Except MemoryFault (Outcome R) := do
  let b64_len ← readU64 host b64
  if b64_len % 4 ≠ 0 then pure ⟨[], none⟩
  else do
    let str_len := b64_len / 4 * 3
    let decoded ← allocateZeroed alloc (str_len + 8)
    let st ← decodeGroups b64 (b64_len / 4) ⟨0, 0, 0, decoded⟩
    let real_str_len := (str_len + 2 ^ 64 - st.num_pad.toNat) % 2 ^ 64
    let decoded ← writeU64 host st.decoded_serialized real_str_len
    pure ⟨[decoded], d decoded⟩

end Runtime

end Tyr
