import E9Patch.Refactor
import E9Patch.LoaderMap
import E9Patch.Elf

/-!
# The ELF emitter

`emitElf` rounds the patched image up to a page (step 1), refactors it (step 2), appends the
trampoline blobs (step 3) and the loader region (step 4): the config record, the init
table, the two mapping tables, the entry shim and the loader. It then points the entry at
the shim (step 5) and turns one program header into a `PT_LOAD` of the loader region
(step 6). Each step is one definition here, and `emitElf` composes them in the source's
order.
-/

namespace E9Patch

/-- The global options `emitElf` reads. `option_loader_phdr` is a program-header type, or
any other value for the first of `PT_NOTE`, `PT_GNU_RELRO`, `PT_GNU_STACK` present. -/
structure Options where
  option_loader_static : Bool
  option_loader_base : Int
  option_loader_phdr : Nat
  option_trap_entry : Bool

/-- The fields of `Binary` that `emitElf` reads: the original and patched images, the
patched size, the mode, the instruction index, the init functions, the `mmap` hint
(`INTPTR_MIN` when unset) and the program headers `parseElf` recorded. -/
structure Binary where
  original : Mem
  data : Mem
  size : Nat
  mode : Mode
  Is : InstrSet
  inits : List Int
  mmap : Int
  elf : ElfInfo

def PROT_READ : Nat := 1
def PROT_WRITE : Nat := 2
def PROT_EXEC : Nat := 4

/-- A `Mapping` as the loader tables see it: its base address, protection, preload flag,
and `getVirtualBounds(mapping, PAGE_SIZE)`, the sub-ranges that carry bytes. -/
structure MapNode where
  base : Int
  prot : Nat
  preload : Bool
  bounds : List (Int × Int)

/-- A mapping of the mapping set: the head of a `merged` chain, with the blob that
`flattenMapping` writes for the whole chain, of the head's `size`. -/
structure Mapping where
  head : MapNode
  merged : List MapNode
  size : Nat
  image : List UInt8
  image_length : image.length = size

/-- The chain walked by `for (; mapping != nullptr; mapping = mapping->merged)`. -/
def Mapping.chain (m : Mapping) : List MapNode := m.head :: m.merged

/-- The arguments of one `emitLoaderMap` call: address, length, file offset and the `r`,
`w`, `x` bits. -/
structure MapCall where
  addr : Int
  len : Nat
  offset : Int
  r : Bool
  w : Bool
  x : Bool
  deriving DecidableEq, Repr

/-- The call for the bound `b` of a chain node whose head's blob is at `offset_0`. -/
def boundCall (node : MapNode) (offset_0 : Int) (b : Int × Int) : MapCall :=
  ⟨toIntptr (node.base + b.1), u64 (b.2 - b.1), toIntptr (offset_0 + b.1),
    node.prot &&& PROT_READ != 0, node.prot &&& PROT_WRITE != 0, node.prot &&& PROT_EXEC != 0⟩

def refactorCall (r : Refactor) : MapCall := ⟨r.addr, r.size, r.patchedOffset, true, false, true⟩

/-! ### The config record -/

def CONFIG_SIZE : Nat := 72

/-- Modelled from the spec: what `emitElf` takes from the loader, which is built apart from
this source: `bin`, the bytes of `e9loader_elf_bin`, and `CONFIG_ELF_SIZE`,
`sizeof(struct e9_config_elf_s)`. That struct is not in this source's `e9loader.h`; the spec
gives it at minimum the `intptr_t dynamic` that `emitElf` writes, which the model puts first. -/
structure Loader where
  bin : List UInt8
  CONFIG_ELF_SIZE : Nat
  dynamic_le : 8 ≤ CONFIG_ELF_SIZE

/-- The offsets of the fields of `struct e9_config_s` that `emitElf` writes. -/
def Config.flags : Nat := 8
def Config.size : Nat := 12
def Config.base : Nat := 16
def Config.entry : Nat := 24
def Config.mmap : Nat := 40
def Config.numMaps : Nat := 48
def Config.maps : Nat := 56
def Config.numInits : Nat := 64
def Config.inits : Nat := 68

def E9_FLAG_EXE : Nat := 0x1

/-- `const char magic[] = "E9PATCH"`, with its terminating NUL. -/
def E9_MAGIC : List UInt8 := [0x45, 0x39, 0x50, 0x41, 0x54, 0x43, 0x48, 0x00]

def Mem.bumpU32 (m : Mem) (pos : Nat) : Mem := m.writeLE pos 4 (m.readLE pos 4 + 1)

/-! ### Steps (1) to (3) -/

/-- Step (3): each head's blob at the cursor, and the cursor, `mapping->offset`, of each. -/
def emitTrampolines (data : Mem) (size : Nat) : List Mapping → Mem × Nat × List Nat
  | [] => (data, size, [])
  | m :: ms =>
    let r := emitTrampolines (data.write size m.image) (size + m.size) ms
    (r.1, r.2.1, size :: r.2.2)

/-- Steps (1) to (3): the buffer, the cursor, the refactors and the heads' offsets. -/
def emitPatches (opts : Options) (B : Binary) (mappings : List Mapping) (mapping_size : Nat) :
    Except String (Mem × Nat × List Refactor × List Nat) := do
  let size := pageRoundUp B.size
  let (data, g, refactors) ← emitRefactoredPatch opts.option_loader_static B.original B.data
    size mapping_size B.Is
  let (data, size, offsets) := emitTrampolines data (size + g) mappings
  pure (data, size, refactors, offsets)

/-! ### Step (4): the loader region -/

/-- The config record's fixed fields: the magic, `base`, `mmap` when the hint is set, and
`inits`, the offset of the init table. -/
def emitConfigHeader (opts : Options) (loader : Loader) (B : Binary) (config_offset : Nat)
    (data : Mem) : Mem :=
  let data := data.write config_offset E9_MAGIC
  let data := data.writeLE (config_offset + Config.base) 8 (u64 opts.option_loader_base)
  let data := if B.mmap ≠ INTPTR_MIN then
    data.writeLE (config_offset + Config.mmap) 8 (u64 B.mmap) else data
  data.writeLE (config_offset + Config.inits) 4 (u32 (CONFIG_SIZE + loader.CONFIG_ELF_SIZE))

/-- The init table: each address appended, `num_inits` incremented. -/
def emitInits (config_offset : Nat) (data : Mem) (size : Nat) : List Int → Mem × Nat
  | [] => (data, size)
  | init :: inits =>
    emitInits config_offset
      ((data.writeLE size 8 (u64 init)).bumpU32 (config_offset + Config.numInits)) (size + 8) inits

/-- One `emitLoaderMap` call into table `i`, which then counts one more record. -/
def emitRecord (sp : AddressSpace) (config_offset i : Nat) (s : Mem × Nat × Option Int)
    (c : MapCall) : Except String (Mem × Nat × Option Int) := do
  let (data, n, ub) ← emitLoaderMap sp s.1 s.2.1 c.addr c.len c.offset c.r c.w c.x s.2.2
  pure (data.bumpU32 (config_offset + Config.numMaps + 4 * i), s.2.1 + n, ub)

/-- Pass `i` of the mapping-table loop: `maps[i]` set to the cursor, then one record for
every bound of every chain node whose preload flag is the pass's, heads in order and each
chain from its head. -/
def emitTable (sp : AddressSpace) (config_offset i : Nat) (heads : List (Mapping × Nat))
    (s : Mem × Nat × Option Int) : Except String (Mem × Nat × Option Int) :=
  let preload := decide (i = 0)
  let s := (s.1.writeLE (config_offset + Config.maps + 4 * i) 4 (u32 (s.2.1 - config_offset)),
    s.2.1, s.2.2)
  heads.foldlM (fun s mo => mo.1.chain.foldlM (fun s node =>
      if node.preload ≠ preload then pure s else
        node.bounds.foldlM (fun s b => emitRecord sp config_offset i s (boundCall node mo.2 b)) s)
    s) s

/-- `"0x%lx"`. -/
def hexString (n : Int) : String := "0x" ++ String.mk (Nat.toDigits 16 (u64 n))

/-- `mov (%rsp),%rdi; lea 0x8(%rsp),%rsi` for an executable, `xorq %edi,%edi;
xorq %esi,%esi` for a shared object. -/
def shimPrologue : Mode → List UInt8
  | .elfExe => [0x48, 0x8B, 0x3C, 0x24, 0x48, 0x8D, 0x74, 0x24, 0x08]
  | .elfDso => [0x31, 0xFF, 0x31, 0xF6]

/-- `lea config(%rip),%rdx` without its displacement. -/
def LEA_RDX : List UInt8 := [0x48, 0x8D, 0x15]

/-- The entry shim: the entry address, then the optional `int3`, the prologue, the `lea` of
the config record and the loader blob `e9loader_elf_bin`. -/
def emitShim (opts : Options) (mode : Mode) (loaderBin : List UInt8) (config_offset : Nat)
    (data : Mem) (size : Nat) : Mem × Nat × Int :=
  let entry := toIntptr (opts.option_loader_base + (size - config_offset : Nat))
  let data := if opts.option_trap_entry then data.write size [0xCC] else data
  let size := if opts.option_trap_entry then size + 1 else size
  let data := data.write size (shimPrologue mode ++ LEA_RDX)
  let size := size + (shimPrologue mode ++ LEA_RDX).length
  let config_rel32 := toInt32 (-toInt32 (size + 4 - config_offset : Nat))
  let data := data.writeLE size 4 (u32 config_rel32)
  let size := size + 4
  (data.write size loaderBin, size + loaderBin.length, entry)

/-- Step (4) from the config record on: the buffer, the cursor and the entry address. -/
def emitLoader (sp : AddressSpace) (opts : Options) (loader : Loader) (B : Binary)
    (heads : List (Mapping × Nat)) (refactors : List Refactor) (config_offset : Nat)
    (data : Mem) : Except String (Mem × Nat × Int) := do
  let data := emitConfigHeader opts loader B config_offset data
  let (data, size) := emitInits config_offset data
    (config_offset + CONFIG_SIZE + loader.CONFIG_ELF_SIZE) B.inits
  let s ← emitTable sp config_offset 0 heads (data, size, some INTPTR_MIN)
  let s ← emitTable sp config_offset 1 heads s
  let ub := s.2.2.getD INTPTR_MIN
  if ub > opts.option_loader_base then
    throw ("loader base address (" ++ hexString opts.option_loader_base ++
      ") (see `--loader-base\x27) must not exceed maximum mapping address (" ++ hexString ub ++
      ") (see `--mem-ub\x27)")
  let (data, size, _) ← refactors.foldlM (fun s r => emitRecord sp config_offset 1 s
    (refactorCall r)) (s.1, s.2.1, none)
  let (data, size, entry) := emitShim opts B.mode loader.bin config_offset data size
  let config_size := size - config_offset
  pure (data.writeLE (config_offset + Config.size) 4 (u32 (pageRoundUp config_size)), size, entry)

/-! ### Steps (5) and (6) -/

def DT_NULL : Nat := 0
def DT_INIT : Nat := 12

def d_tag (data : Mem) (dyn i : Nat) : Nat := data.readLE (dyn + i * DYN_SIZE) 8

/-- The scan of the dynamic table: the first `DT_INIT` entry before any `DT_NULL`. -/
def findInit (data : Mem) (dyn : Nat) : List Nat → Option Nat
  | [] => none
  | i :: is =>
    if d_tag data dyn i = DT_NULL then none
    else if d_tag data dyn i = DT_INIT then some i
    else findInit data dyn is

/-- `config_elf->dynamic = phdr->p_vaddr` when a `PT_DYNAMIC` header was recorded. -/
def storeDynamic (B : Binary) (config_offset : Nat) (data : Mem) : Mem :=
  match B.elf.phdrDynamic with
  | some p => data.writeLE (config_offset + CONFIG_SIZE) 8 (p_vaddr data p)
  | none => data

/-- Step (5): `config_elf->dynamic`, then the entry point redirected to `entry`, its old
value saved in `config->entry`. -/
def rewireEntry (B : Binary) (config_offset : Nat) (entry : Int) (data : Mem) :
    Except String Mem :=
  let data := storeDynamic B config_offset data
  match B.mode with
  | .elfExe =>
    let data := data.writeLE (config_offset + Config.entry) 8 (e_entry data)
    let data := data.writeLE 24 8 (u64 entry)
    pure (data.writeLE (config_offset + Config.flags) 4
      (data.readLE (config_offset + Config.flags) 4 ||| E9_FLAG_EXE))
  | .elfDso =>
    match B.elf.phdrDynamic with
    | none => throw "failed to replace DT_INIT entry; missing PT_DYNAMIC program header"
    | some p =>
      let dyn := p_offset data p
      match findInit data dyn (List.range (p_memsz data p / DYN_SIZE)) with
      | none => throw "failed to replace DT_INIT entry; entry was not found"
      | some i =>
        let data := data.writeLE (config_offset + Config.entry) 8
          (data.readLE (dyn + i * DYN_SIZE + 8) 8)
        pure (data.writeLE (dyn + i * DYN_SIZE + 8) 8 (u64 entry))

/-- The program header step (6) rewrites, and its name for the error message. -/
def selectPhdr (option_loader_phdr : Nat) (elf : ElfInfo) : Option Nat × String :=
  if option_loader_phdr = PT_NOTE then (elf.phdrNote, "PT_NOTE")
  else if option_loader_phdr = PT_GNU_RELRO then (elf.phdrGnuRelro, "PT_GNU_RELRO")
  else if option_loader_phdr = PT_GNU_STACK then (elf.phdrGnuStack, "PT_GNU_STACK")
  else ((elf.phdrNote.orElse fun _ => elf.phdrGnuRelro).orElse fun _ => elf.phdrGnuStack,
    "PT_NOTE, PT_GNU_RELRO, or PT_GNU_STACK")

def PF_X : Nat := 1
def PF_R : Nat := 4

/-- The 56 bytes of the repurposed header: a read-execute `PT_LOAD` of the loader region. -/
def loaderPhdr (config_offset : Nat) (loader_base : Int) (config_size : Nat) : List UInt8 :=
  leBytes 4 PT_LOAD ++ leBytes 4 (PF_X ||| PF_R) ++ leBytes 8 config_offset ++
    leBytes 8 (u64 loader_base) ++ leBytes 8 0 ++ leBytes 8 config_size ++
    leBytes 8 config_size ++ leBytes 8 PAGE_SIZE

def repurposePhdr (opts : Options) (elf : ElfInfo) (config_offset config_size : Nat)
    (data : Mem) : Except String Mem :=
  match selectPhdr opts.option_loader_phdr elf with
  | (none, phdr_str) =>
    throw ("failed to replace PHDR entry; missing " ++ phdr_str ++ " segment")
  | (some phdr, _) =>
    pure (data.write phdr (loaderPhdr config_offset opts.option_loader_base config_size))

/-- `emitElf(B, mappings, mapping_size)`: the output buffer, its size, and the offset
`mapping->offset` given to each head. `sp` holds the address macros and `loader` what the
loader's build provides. -/
def emitElf (sp : AddressSpace) (opts : Options) (loader : Loader) (B : Binary)
    (mappings : List Mapping) (mapping_size : Nat) : Except String (Mem × Nat × List Nat) := do
  let (data, size, refactors, offsets) ← emitPatches opts B mappings mapping_size
  let config_offset := pageRoundUp size
  let (data, size, entry) ← emitLoader sp opts loader B (mappings.zip offsets) refactors
    config_offset data
  let data ← rewireEntry B config_offset entry data
  let data ← repurposePhdr opts B.elf config_offset (size - config_offset) data
  pure (data, size, offsets)

end E9Patch
