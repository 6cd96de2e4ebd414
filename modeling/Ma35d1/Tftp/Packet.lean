import Mathlib.Data.BitVec
import Ma35d1.Machine.Copy

/-!
# TFTP packets

What the TFTP server and the TFTP client read of a datagram and what they send. An address is of any
type with decidable equality.
-/

namespace Ma35d1.Tftp

open Ma35d1.Machine.Copy

abbrev Bytes := List (BitVec 8)

/-- `TFTP_OPCODE_RRQ` and so on -/
def opcodeRrq : BitVec 16 := 1
def opcodeWrq : BitVec 16 := 2
def opcodeData : BitVec 16 := 3
def opcodeAck : BitVec 16 := 4
def opcodeError : BitVec 16 := 5

/-- `TFTP_MAX_RETRIES` and `TFTP_BLOCK_LENGTH` -/
def maxRetries : Int := 5
def blockLength : Nat := 512

/-- `FILE_LEN` -/
def fileLen : Nat := 2048

/-- `enum tftp_state` -/
inductive State
  | idle
  | wrq
  | rrq
  deriving DecidableEq

/-- The errors that are sent, of `enum tftp_error` -/
inductive Error
  | accessViolation
  | illegalOperation
  | unknownId
  deriving DecidableEq

/-- A datagram that was received: its source, the payload, and what stands behind the payload in
memory -/
structure Datagram (Addr : Type*) where
  addr : Addr
  port : BitVec 16
  payload : Bytes
  behind : Nat → BitVec 8

/-- What is sent, and to whom -/
inductive Packet (Addr : Type*)
  | ack (addr : Addr) (port : BitVec 16) (blk : BitVec 16)
  | data (addr : Addr) (port : BitVec 16) (blk : BitVec 16) (bytes : Bytes)
  | err (addr : Addr) (port : BitVec 16) (code : Error)
  | rrq (addr : Addr) (port : BitVec 16)
  | wrq (addr : Addr) (port : BitVec 16)
  deriving DecidableEq

namespace Datagram

variable {Addr : Type*}

/-- The byte at `payload + k` -/
def byte (d : Datagram Addr) (k : Nat) : BitVec 8 :=
  d.payload.getD k (d.behind (k - d.payload.length))

/-- `lwip_ntohs(*(uint16_t *)(payload + k))` -/
def half (d : Datagram Addr) (k : Nat) : BitVec 16 := d.byte k ++ d.byte (k + 1)

/-- The opcode -/
def op (d : Datagram Addr) : BitVec 16 := d.half 0

/-- The block number -/
def newBlk (d : Datagram Addr) : BitVec 16 := d.half 2

/-- The two bytes at `payload + k` are not all of the datagram. -/
def past (d : Datagram Addr) (k : Nat) : Bool := d.payload.length < k + 2

/-- The data of a block that has come -/
def blockBytes (d : Datagram Addr) : Bytes := d.payload.drop 4

end Datagram

/-- Block `b` of a file of `len` bytes, counted from 1 -/
def blockOf (file : Nat → BitVec 8) (len b : Nat) : Bytes :=
  copyFrom file ((b - 1) * blockLength) (min blockLength (len - (b - 1) * blockLength))

/-- How many blocks the file is sent in: the last one is short. -/
def blocks (len : Nat) : Nat := len / blockLength + 1

/-- The first `n` blocks -/
def blocksOf (file : Nat → BitVec 8) (len n : Nat) : List Bytes :=
  (List.range n).map fun i => blockOf file len (i + 1)

/-- Block `b` of the file of the server -/
def fileBlock (file : Nat → BitVec 8) (b : Nat) : Bytes := blockOf file fileLen b

section Blocks

variable {file : Nat → BitVec 8} {len b n : Nat}

theorem length_blockOf :
    (blockOf file len b).length = min blockLength (len - (b - 1) * blockLength) := length_copyFrom

/-- Of the blocks of a file, the last one is short. -/
theorem blockOf_short (hb : b + 1 ≤ blocks len) :
    (blockOf file len (b + 1)).length < blockLength ↔ b + 1 = blocks len := by
  rw [length_blockOf, Nat.add_sub_cancel]
  unfold blocks blockLength at *
  omega

@[simp] theorem length_blocksOf : (blocksOf file len n).length = n := by
  rw [blocksOf, List.length_map, List.length_range]

theorem blocksOf_succ :
    blocksOf file len (n + 1) = blocksOf file len n ++ [blockOf file len (n + 1)] := by
  rw [blocksOf, List.range_succ, List.map_append]
  rfl

end Blocks

/-- The first short block is the fifth: the file has four whole blocks. -/
theorem fileBlock_short (file : Nat → BitVec 8) (b : Nat) :
    (fileBlock file b).length < blockLength ↔ 5 ≤ b := by
  rw [fileBlock, length_blockOf]
  unfold blockLength fileLen
  omega

end Ma35d1.Tftp
