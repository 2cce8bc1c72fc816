/-!
# Gzip streams

A stream whose data stands in stored blocks, uncompressed, with its check value and its length after
it. The check value is the cyclic redundancy check of 32 bits with the reversed polynomial
`0xEDB88320`.
-/

namespace DesignTokens
namespace Gzip

def checkBit (state : UInt32) : UInt32 :=
  if state &&& 1 = 1 then (state >>> 1) ^^^ 0xEDB88320 else state >>> 1

def checkByte (state : UInt32) (byte : UInt8) : UInt32 :=
  (List.range 8).foldl (fun state _ => checkBit state) (state ^^^ byte.toUInt32)

def check (bytes : List UInt8) : UInt32 :=
  bytes.foldl checkByte 0xFFFFFFFF ^^^ 0xFFFFFFFF

/-- A number in bytes, the lowest first. -/
def littleEndian : Nat → Nat → List UInt8
  | 0, _ => []
  | width + 1, n => UInt8.ofNat n :: littleEndian width (n / 256)

def blockLimit : Nat := 65535

def block (isLast : Bool) (data : List UInt8) : List UInt8 :=
  (if isLast then 1 else 0) :: littleEndian 2 data.length ++
    littleEndian 2 (blockLimit - data.length) ++ data

def blocks (data : List UInt8) : List UInt8 :=
  if data.length ≤ blockLimit then block true data
  else
    block false (data.take blockLimit) ++ blocks (data.drop blockLimit)
termination_by data.length
decreasing_by
  rename_i h
  rw [List.length_drop]
  exact Nat.sub_lt (Nat.lt_of_le_of_lt (Nat.zero_le _) (Nat.lt_of_not_le h)) (Nat.succ_pos _)

/-- The header: deflated data, no flags, no time, an unknown system. -/
def header : List UInt8 :=
  [0x1F, 0x8B, 8, 0, 0, 0, 0, 0, 0, 255]

def stream (data : List UInt8) : List UInt8 :=
  header ++ blocks data ++ littleEndian 4 (check data).toNat ++ littleEndian 4 data.length

end Gzip
end DesignTokens
