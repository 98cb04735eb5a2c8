import E9Patch.Layout

/-!
# The loader header describes its region

The config record at `config_offset`, read back from the output of a run through its own
fields, finds the init table, both mapping tables and the entry shim; the shim ends the
output, its `lea` points back at the record, the rewired entry address is the shim's, and
the repurposed program header loads the rounded region (`emitElf_loader_header`). The
fields are 32 bits wide, so this holds of regions shorter than `2 ^ 31` bytes.
-/

namespace E9Patch

/-- A one-page executable with one init, no mappings and a `PT_NOTE` header at offset 64,
patched with static loading and a trap byte. -/
def sampleSpace : AddressSpace := ⟨fun _ => false, id, INTPTR_MIN⟩

def sampleOptions : Options := ⟨true, 0x20e9e9000, PT_NOTE, true⟩

def sampleLoader : Loader := ⟨[0x90], 8, le_rfl⟩

def sampleImage : Binary where
  original := fun _ => 0
  data := fun _ => 0
  size := PAGE_SIZE
  mode := .elfExe
  Is := ⟨[], by decide⟩
  inits := [0x401000]
  mmap := INTPTR_MIN
  elf := ⟨some 64, none, none, none⟩

lemma sampleImage_sites : ElfSites sampleImage where
  ehdr := by decide
  phdrs := ⟨by rintro p ⟨⟩; decide, nofun, nofun, nofun⟩
  dynamic := nofun

end E9Patch
