import E9Patch.Basic

/-!
# The refactor planner

`emitRefactoredPatch` walks the patched image a page at a time, clusters the pages that
differ from the original image into refactors (step #1), then appends a copy of each
refactor's patched bytes to the image and restores the original bytes in its place
(step #2). The loader maps the copies back over the originals at run time.
-/

namespace E9Patch

/-- The two fields of a patched instruction `Instr` that the planner reads. -/
structure Instr where
  addr : Int
  offset : Int
  deriving DecidableEq, Repr

/-- `InstrSet`, the instruction index: a `std::map` keyed by file offset, so its entries
are sorted with distinct keys. -/
structure InstrSet where
  instrs : List Instr
  sorted : instrs.Pairwise fun a b => a.offset < b.offset

/-- `Is.lower_bound(offset)`: the first instruction whose file offset is `≥ offset`. -/
def InstrSet.lowerBound (Is : InstrSet) (offset : Int) : Option Instr :=
  Is.instrs.find? fun I => decide (offset ≤ I.offset)

structure Refactor where
  addr : Int
  size : Nat
  originalOffset : Int
  patchedOffset : Int
  deriving DecidableEq, Repr

def Refactor.new (addr : Int) (offset : Int) (size : Nat) : Refactor :=
  ⟨addr, size, offset, 0⟩

/-- The planner's current cluster `curr_addr`, `curr_offset`, `curr_size`. -/
structure Cluster where
  currAddr : Int
  currOffset : Int
  currSize : Nat
  deriving DecidableEq, Repr

def Cluster.init : Cluster := ⟨INTPTR_MIN, -1, 0⟩

/-- `memcmp(original + offset, data + offset, PAGE_SIZE) == 0`. -/
def pageSame (original data : Mem) (offset : Nat) : Bool :=
  (List.range PAGE_SIZE).all fun k => original (offset + k) == data (offset + k)

/-- `I->addr - (I->addr % PAGE_SIZE)`; the modulus is taken in `size_t`. -/
def pageAddr (I : Instr) : Int := toIntptr (I.addr - I.addr % PAGE_SIZE)

def pageOffset (I : Instr) : Int := toIntptr (I.offset - I.offset % PAGE_SIZE)

/-- The body of step #1 for a dirty page at `page_addr`, `page_offset`: merge it into the
current cluster, or push the current cluster (when it has started) and open a new one. -/
def clusterPage (mapping_size : Nat) (s : Cluster × List Refactor) (page_addr page_offset : Int) :
    Cluster × List Refactor :=
  let c := s.1
  if c.currAddr < 0 ∨ page_addr < c.currAddr ∨
      toIntptr (c.currAddr + c.currSize + mapping_size) < page_addr then
    (⟨page_addr, page_offset, PAGE_SIZE⟩,
      if 0 ≤ c.currAddr then s.2 ++ [Refactor.new c.currAddr c.currOffset c.currSize] else s.2)
  else
    (⟨c.currAddr, c.currOffset,
      u64 (c.currSize + ((page_addr + PAGE_SIZE) - (c.currAddr + c.currSize)))⟩, s.2)

/-- One iteration of step #1's loop, at page offset `offset`, with its two assertions. -/
def findStep (original data : Mem) (mapping_size : Nat) (Is : InstrSet)
    (s : Cluster × List Refactor) (offset : Nat) : Except String (Cluster × List Refactor) :=
  if pageSame original data offset then pure s else
  match Is.lowerBound offset with
  | none => throw "assertion failed: i != Is.end()"
  | some I =>
    if pageOffset I = offset then pure (clusterPage mapping_size s (pageAddr I) (pageOffset I))
    else throw "assertion failed: page_offset == offset"

/-- The offsets `0, PAGE_SIZE, ...` below `(off_t)size`, for a page-aligned `size`. -/
def pageOffsets (size : Nat) : List Nat :=
  (List.range ((toIntptr size).toNat / PAGE_SIZE)).map (· * PAGE_SIZE)

def flushCluster (s : Cluster × List Refactor) : List Refactor :=
  if 0 ≤ s.1.currAddr then s.2 ++ [Refactor.new s.1.currAddr s.1.currOffset s.1.currSize] else s.2

/-- Step #2 for one refactor: its patched offset is the current size, its bytes are copied
there, and the original bytes are put back in its place. -/
def copyRefactor (original : Mem) (s : Mem × Nat × List Refactor) (r : Refactor) :
    Mem × Nat × List Refactor :=
  let (data, size, done) := s
  let data := data.copy size data r.originalOffset.toNat r.size
  let data := data.copy r.originalOffset.toNat original r.originalOffset.toNat r.size
  (data, size + r.size, done ++ [{ r with patchedOffset := size }])

/-- `emitRefactoredPatch`: the new buffer, the growth it returns, and the refactor set. -/
def emitRefactoredPatch (option_loader_static : Bool) (original data : Mem)
    (size mapping_size : Nat) (Is : InstrSet) : Except String (Mem × Nat × List Refactor) :=
  if option_loader_static then pure (data, 0, []) else
  if size % PAGE_SIZE ≠ 0 then throw "assertion failed: size % PAGE_SIZE == 0" else do
  let s ← (pageOffsets size).foldlM (findStep original data mapping_size Is) (Cluster.init, [])
  let out := (flushCluster s).foldl (copyRefactor original) (data, size, [])
  pure (out.1, out.2.1 - size, out.2.2)

end E9Patch
