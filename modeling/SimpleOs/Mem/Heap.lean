import SimpleOs.Mem.Virtual
import SimpleOs.Lib.List

/-!
# The kernel heap

`sys_malloc` and `sys_free` of `kernel/memory.c` for a kernel thread. Small blocks are cut from
arenas of one page, and the free ones of a size are chained into a list by pointers that are kept
in the blocks themselves; large blocks get pages of their own. All of it is memory: the functions
read and write words at virtual addresses. The lock of the pool makes each call one step.
-/

namespace SimpleOs

open Base

namespace Memory

/-! ### list.c

A `struct list_elem` has `prev` at offset 0 and `next` at offset 4; a `struct list` has its `head`
at offset 0 and its `tail` at offset 8. -/

variable (m : Memory)

/-- `list_init`. -/
def listInit (plist : Nat) : Memory :=
  (((m.setWord plist 0).setWord (plist + 4) (plist + 8)).setWord (plist + 8) plist).setWord
    (plist + 12) 0

/-- `list_insert_before`. -/
def listInsertBefore (before elem : Nat) : Memory :=
  let m := m.setWord (m.word before + 4) elem
  let m := m.setWord elem (m.word before)
  let m := m.setWord (elem + 4) before
  m.setWord before elem

/-- `list_append`. -/
def listAppend (plist elem : Nat) : Memory := m.listInsertBefore (plist + 8) elem

/-- `list_remove`. -/
def listRemove (pelem : Nat) : Memory :=
  let m := m.setWord (m.word pelem + 4) (m.word (pelem + 4))
  m.setWord (m.word (pelem + 4)) (m.word pelem)

/-- `list_empty`. -/
def listEmpty (plist : Nat) : Bool := m.word (plist + 4) = plist + 8

/-! ### Descriptors and arenas

A `struct mem_block_desc` has `block_size` at offset 0, `blocks_per_arena` at offset 4 and
`free_list` at offset 8. A `struct arena` has `desc` at offset 0, `cnt` at offset 4 and `large` at
offset 8; its size is 12. -/

/-- The first `n` rounds of `block_desc_init`. -/
def blockDescInit (m : Memory) (descArray : Nat) : (n : Nat) → Memory
  | 0 => m
  | n + 1 =>
    let m := blockDescInit m descArray n
    let blockSize := 16 * 2 ^ n
    let m := m.setWord (descArray + 24 * n) blockSize
    let m := m.setWord (descArray + 24 * n + 4) ((pgSize - 12) / blockSize)
    m.listInit (descArray + 24 * n + 8)

/-- `arena2block`. -/
def arena2block (a idx : Nat) : Nat := a + 12 + idx * m.word (m.word a)

/-- `block2arena`. -/
def block2arena (b : Nat) : Nat := b / pgSize * pgSize

/-! ### sys_malloc -/

/-- The search for the descriptor: `left` of them are still to be looked at. -/
def findDesc (m : Memory) (descs size : Nat) : (left descIdx : Nat) → Nat
  | 0, descIdx => descIdx
  | left + 1, descIdx =>
    if size ≤ m.word (descs + 24 * descIdx) then descIdx
    else findDesc m descs size left (descIdx + 1)

/-- The first `n` rounds of the loop that puts the blocks of a new arena in the free list. -/
def appendBlocks (m : Memory) (a : Nat) : (n : Nat) → Memory
  | 0 => m
  | n + 1 =>
    let m := appendBlocks m a n
    m.listAppend (m.word a + 8) (m.arena2block a n)

/-- A new arena for the descriptor at address `desc`. The bound of the loop is read once: nothing
in the loop writes to it. -/
def newArena (desc : Nat) : Bool × Memory :=
  match m.mallocPage 1 with
  | (none, m) => (false, m)
  | (some a, m) =>
    let m := m.memset a 0 pgSize
    let m := m.setWord a desc
    let m := m.setWord (a + 8) 0
    let m := m.setWord (a + 4) (m.word (desc + 4))
    (true, m.appendBlocks a (m.word (desc + 4)))

/-- Take the first free block of a descriptor. -/
def popBlock (desc : Nat) : Nat × Memory :=
  let b := m.word (desc + 8 + 4)
  let m := m.listRemove b
  let m := m.memset b 0 (m.word desc)
  let a := block2arena b
  (b, m.setWord (a + 4) (m.word (a + 4) + (2 ^ 32 - 1)))

/-- The branch of `sys_malloc` for more than 1024 bytes. -/
def mallocLarge (size : Nat) : Option Nat × Memory :=
  let pageCnt := divRoundUp (size + 12) pgSize
  match m.mallocPage pageCnt with
  | (none, m) => (none, m)
  | (some a, m) =>
    let m := m.memset a 0 (pageCnt * pgSize)
    let m := ((m.setWord a 0).setWord (a + 4) pageCnt).setWord (a + 8) 1
    (some (a + 12), m)

/-- The other branch, for the descriptor at address `desc`. -/
def mallocSmall (desc : Nat) : Option Nat × Memory :=
  match (if m.listEmpty (desc + 8) then m.newArena desc else (true, m)) with
  | (false, m) => (none, m)
  | (true, m) => (some (m.popBlock desc).1, (m.popBlock desc).2)

/-- `sys_malloc`, with the descriptors of the kernel at the address `descs`. -/
def sysMalloc (descs size : Nat) : Option Nat × Memory :=
  if ¬ (0 < size ∧ size < m.kernelPool.poolSize) then (none, m)
  else if 1024 < size then m.mallocLarge size
  else m.mallocSmall (descs + 24 * m.findDesc descs size 7 0)

/-! ### sys_free -/

/-- The first `n` rounds of the loop that takes the blocks of an arena out of the free list. -/
def removeBlocks (m : Memory) (a : Nat) : (n : Nat) → Memory
  | 0 => m
  | n + 1 =>
    let m := removeBlocks m a n
    m.listRemove (m.arena2block a n)

/-- `sys_free`. -/
def sysFree (ptr : Nat) : Memory :=
  let a := block2arena ptr
  if m.word a = 0 ∧ m.word (a + 8) = 1 then m.mfreePage a (m.word (a + 4))
  else
    let m := m.listAppend (m.word a + 8) ptr
    let m := m.setWord (a + 4) (m.word (a + 4) + 1)
    if m.word (a + 4) = m.word (m.word a + 4) then
      (m.removeBlocks a (m.word (m.word a + 4))).mfreePage a 1
    else m

end Memory

end SimpleOs
