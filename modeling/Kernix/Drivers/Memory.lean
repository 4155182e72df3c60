import Kernix.Machine
import Kernix.Lib.ByteMemory

/-! `memset` and `memcpy` of the memory driver: single bytes up to a four-byte
boundary of the destination, then whole words, then the remaining bytes. `memmove` goes
byte by byte, from the side on which it reads nothing that it has written. -/

namespace Kernix
open ByteMemory

/-- `while (n && (p & 3)) { *p++ = val; n--; }`, with the memory, `p` and `n` it ends with. -/
def memsetHead (val : Nat) : Nat → Memory → Nat → Memory × Nat × Nat
  | 0, memory, p => (memory, p, 0)
  | n + 1, memory, p =>
    if p % 4 ≠ 0 then memsetHead val n (store memory p 1 val) (u64 (p + 1)) else (memory, p, n + 1)

/-- `while (n32--) *p32++ = val32;` -/
def memsetWords (val32 : Nat) : Nat → Memory → Nat → Memory × Nat
  | 0, memory, p => (memory, p)
  | n32 + 1, memory, p => memsetWords val32 n32 (store memory p 4 val32) (u64 (p + 4))

/-- `while (n--) *p++ = val;` -/
def memsetTail (val : Nat) : Nat → Memory → Nat → Memory
  | 0, memory, _ => memory
  | n + 1, memory, p => memsetTail val n (store memory p 1 val) (u64 (p + 1))

def memset (memory : Memory) (ptr : Nat) (val : UInt8) (n : Nat) : Memory :=
  let val := val.toNat
  let val32 := val ||| (val <<< 8) ||| (val <<< 16) ||| (val <<< 24)
  let (memory, p, n) := memsetHead val n memory ptr
  let (memory, p) := memsetWords val32 (n / 4) memory p
  memsetTail val (n % 4) memory p

/-! `source` gives the bytes that the second pointer of `memcpy` leads to, as they
are in the memory of the moment. -/

/-- `while (n && (d & 3)) { *d++ = *s++; n--; }`, with the memory, `d`, `s` and `n` it ends with. -/
def memcpyHead (source : Memory → Nat → UInt8) : Nat → Memory → Nat → Nat → Memory × Nat × Nat × Nat
  | 0, memory, d, s => (memory, d, s, 0)
  | n + 1, memory, d, s =>
    if d % 4 ≠ 0 then memcpyHead source n (store memory d 1 (load (source memory) s 1)) (u64 (d + 1)) (s + 1)
    else (memory, d, s, n + 1)

/-- `while (n32--) *d32++ = *s32++;` -/
def memcpyWords (source : Memory → Nat → UInt8) : Nat → Memory → Nat → Nat → Memory × Nat × Nat
  | 0, memory, d, s => (memory, d, s)
  | n32 + 1, memory, d, s =>
    memcpyWords source n32 (store memory d 4 (load (source memory) s 4)) (u64 (d + 4)) (s + 4)

/-- `while (n--) *d++ = *s++;` -/
def memcpyTail (source : Memory → Nat → UInt8) : Nat → Memory → Nat → Nat → Memory
  | 0, memory, _, _ => memory
  | n + 1, memory, d, s =>
    memcpyTail source n (store memory d 1 (load (source memory) s 1)) (u64 (d + 1)) (s + 1)

def memcpy (memory : Memory) (dst : Nat) (source : Memory → Nat → UInt8) (n : Nat) : Memory :=
  let (memory, d, s, n) := memcpyHead source n memory dst 0
  let (memory, d, s) := memcpyWords source (n / 4) memory d s
  memcpyTail source (n % 4) memory d s

/-- The bytes at an address of the memory itself. -/
def bytesFrom (address : Nat) (memory : Memory) (offset : Nat) : UInt8 := memory (address + offset)

/-- The bytes of a buffer that belongs to the caller. -/
def bytesOf (buffer : List UInt8) (_ : Memory) (offset : Nat) : UInt8 := buffer.getD offset 0

/-- `for (size_t i = 0; i < n; i++) d[i] = s[i];` with the turns that are left. -/
def memmoveUp (d s : Nat) : Nat → Nat → Memory → Memory
  | 0, _, memory => memory
  | left + 1, i, memory => memmoveUp d s left (i + 1) (store memory (u64 (d + i)) 1 (load memory (u64 (s + i)) 1))

/-- `for (size_t i = n; i > 0; i--) d[i - 1] = s[i - 1];` -/
def memmoveDown (d s : Nat) : Nat → Memory → Memory
  | 0, memory => memory
  | i + 1, memory => memmoveDown d s i (store memory (u64 (d + i)) 1 (load memory (u64 (s + i)) 1))

def memmove (memory : Memory) (dst src n : Nat) : Memory :=
  if dst < src then memmoveUp dst src n 0 memory else memmoveDown dst src n memory

end Kernix
