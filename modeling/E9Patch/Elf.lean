import E9Patch.Basic

/-!
# The ELF validator

`parseElf` checks the ELF header of the input image, reserves the address ranges the image
will occupy, and records the program headers that `emitElf` later reads or rewrites. A
pointer into the image is its offset from the start of `B->patched.bytes`; the header
fields are read little endian, at the offsets `<elf.h>` gives them.

* `parseElf_eq_ok`: what a call that raises no error has checked.
* `parseElf_phdrs_inside`: the program-header table and every recorded program header lie
  inside the image, and the dynamic segment does too unless its end wraps past `2 ^ 64`.
-/

namespace E9Patch

def EHDR_SIZE : Nat := 64

def PHDR_SIZE : Nat := 56

def DYN_SIZE : Nat := 16

def PN_XNUM : Nat := 0xffff
def ELFCLASS64 : Nat := 2
def ELFDATA2LSB : Nat := 1
def EV_CURRENT : Nat := 1
def ET_EXEC : Nat := 2
def ET_DYN : Nat := 3
def EM_X86_64 : Nat := 62
def PT_LOAD : Nat := 1
def PT_DYNAMIC : Nat := 2
def PT_NOTE : Nat := 4
def PT_GNU_STACK : Nat := 0x6474e551
def PT_GNU_RELRO : Nat := 0x6474e552

inductive Mode where
  | elfExe
  | elfDso
  deriving DecidableEq, Repr

/-- `ElfInfo`: the program headers `parseElf` records, as offsets into the image. Its
`ehdr` is always the start of the image. -/
structure ElfInfo where
  phdrNote : Option Nat
  phdrGnuRelro : Option Nat
  phdrGnuStack : Option Nat
  phdrDynamic : Option Nat
  deriving DecidableEq, Repr

def ElfInfo.empty : ElfInfo := ⟨none, none, none, none⟩

def ElfInfo.All (P : Nat → Prop) (info : ElfInfo) : Prop :=
  (∀ p, info.phdrNote = some p → P p) ∧ (∀ p, info.phdrGnuRelro = some p → P p) ∧
    (∀ p, info.phdrGnuStack = some p → P p) ∧ ∀ p, info.phdrDynamic = some p → P p

def e_type (data : Mem) : Nat := data.readLE 16 2
def e_machine (data : Mem) : Nat := data.readLE 18 2
def e_entry (data : Mem) : Nat := data.readLE 24 8
def e_phoff (data : Mem) : Nat := data.readLE 32 8
def e_phnum (data : Mem) : Nat := data.readLE 56 2
def p_type (data : Mem) (phdr : Nat) : Nat := data.readLE phdr 4
def p_offset (data : Mem) (phdr : Nat) : Nat := data.readLE (phdr + 8) 8
def p_vaddr (data : Mem) (phdr : Nat) : Nat := data.readLE (phdr + 16) 8
def p_memsz (data : Mem) (phdr : Nat) : Nat := data.readLE (phdr + 40) 8
def elfMagic (data : Mem) : Prop :=
  (data 0).toNat = 0x7f ∧ (data 1).toNat = 0x45 ∧ (data 2).toNat = 0x4c ∧ (data 3).toNat = 0x46

instance (data : Mem) : Decidable (elfMagic data) := inferInstanceAs (Decidable (_ ∧ _ ∧ _ ∧ _))

def elfError (filename what : String) : String :=
  "failed to parse ELF file \"" ++ filename ++ "\"" ++ what

section Parse

variable {σ : Type} (reserve : σ → Int → Int → Option σ)

/-- The `switch (ehdr->e_type)` of `parseElf`: `pic` and `pie`, with the low 64 KiB reserved
for an executable. -/
def elfType (filename : String) (etype : Nat) (mode : Mode) (rs : σ) :
    Except String (Bool × Bool × σ) :=
  if etype = ET_EXEC then
    if mode = .elfDso then
      throw (elfError filename ": file is an executable and not a shared object")
    else match reserve rs 0x0 0x10000 with
      | none => throw "failed to reserve low-address range"
      | some rs => pure (false, false, rs)
  else if etype = ET_DYN then pure (true, mode = .elfExe, rs)
  else throw (elfError filename "; file is not executable")

/-- One iteration of the program-header loop, at `phdrs + i`: reserve a `PT_LOAD` segment's
addresses, or record a header of the four other types `emitElf` needs. -/
def phdrStep (data : Mem) (phoff : Nat) (s : ElfInfo × σ) (i : Nat) :
    Except String (ElfInfo × σ) :=
  let phdr := phoff + i * PHDR_SIZE
  let ptype := p_type data phdr
  if ptype = PT_LOAD then
    let vstart := toIntptr (p_vaddr data phdr)
    let vend := toIntptr (vstart + p_memsz data phdr)
    match reserve s.2 vstart vend with
    | none => throw ("failed to reserve address space range " ++ toString vstart ++ ".." ++
        toString vend)
    | some rs => pure (s.1, rs)
  else if ptype = PT_DYNAMIC then pure ({ s.1 with phdrDynamic := some phdr }, s.2)
  else if ptype = PT_NOTE then pure ({ s.1 with phdrNote := some phdr }, s.2)
  else if ptype = PT_GNU_RELRO then pure ({ s.1 with phdrGnuRelro := some phdr }, s.2)
  else if ptype = PT_GNU_STACK then pure ({ s.1 with phdrGnuStack := some phdr }, s.2)
  else pure s

/-- The checks on the `PT_DYNAMIC` header after the loop: its end is computed in `uint64_t`. -/
def dynamicCheck (filename : String) (data : Mem) (size : Nat) (info : ElfInfo) :
    Except String Unit :=
  match info.phdrDynamic with
  | some phdr =>
    if size < u64 (p_offset data phdr + p_memsz data phdr) then
      throw (elfError filename ": invalid dynamic section")
    else pure ()
  | none => pure ()

/-- Only a PIE may use the negative addresses: any other image reserves them. -/
def reserveNegative (sp : AddressSpace) (pie : Bool) (rs : σ) : Except String σ :=
  if pie then pure rs else
    match reserve rs sp.RELATIVE_ADDRESS_MIN 0x0 with
    | none => throw "failed to reserve negative-address range"
    | some rs => pure rs

/-- `parseElf(B)` on the image `data` of `size` bytes, with `reserve` the address-space
reservation of `e9alloc.h` acting on its state `rs`: `pic`, the recorded headers and the
new reservation state. The test `e_phnum > PN_XNUM` is on a 16-bit field and never fires;
the end of the header table is computed in `size_t`. -/
def parseElf (sp : AddressSpace) (filename : String) (data : Mem) (size : Nat) (mode : Mode)
    (rs : σ) : Except String (Bool × ElfInfo × σ) :=
  if size < EHDR_SIZE then
    throw ("failed to parse ELF EHDR from file \"" ++ filename ++ "\"; file is too small")
  else if ¬ elfMagic data then throw (elfError filename "; invalid magic number")
  else if (data 4).toNat ≠ ELFCLASS64 then throw (elfError filename "; file is not 64bit")
  else if (data 5).toNat ≠ ELFDATA2LSB then throw (elfError filename "; file is not little endian")
  else if (data 6).toNat ≠ EV_CURRENT then throw (elfError filename "; invalid version")
  else if e_machine data ≠ EM_X86_64 then throw (elfError filename "; file is not x86_64")
  else if e_phoff data < EHDR_SIZE ∨ size ≤ e_phoff data then
    throw (elfError filename "; invalid program header offset")
  else if PN_XNUM < e_phnum data then throw (elfError filename "; too many program headers")
  else if size < u64 (e_phoff data + e_phnum data * PHDR_SIZE) then
    throw (elfError filename "; invalid program headers")
  else do
    let (pic, pie, rs) ← elfType reserve filename (e_type data) mode rs
    let rs ← reserveNegative reserve sp pie rs
    let (info, rs) ← (List.range (e_phnum data)).foldlM (phdrStep reserve data (e_phoff data))
      (ElfInfo.empty, rs)
    dynamicCheck filename data size info
    pure (pic, info, rs)

def InTable (phoff n phdr : Nat) : Prop := ∃ i < n, phdr = phoff + i * PHDR_SIZE

lemma ElfInfo.All.imp {P Q : Nat → Prop} {info : ElfInfo} (h : info.All P)
    (hPQ : ∀ p, P p → Q p) : info.All Q :=
  ⟨fun p hp => hPQ p (h.1 p hp), fun p hp => hPQ p (h.2.1 p hp),
    fun p hp => hPQ p (h.2.2.1 p hp), fun p hp => hPQ p (h.2.2.2 p hp)⟩

/-- One iteration records only the header it is at. -/
lemma phdrStep_inTable {data : Mem} {phoff n i : Nat} {s s' : ElfInfo × σ} (hi : i < n)
    (hs : s.1.All (InTable phoff n)) (h : phdrStep reserve data phoff s i = .ok s') :
    s'.1.All (InTable phoff n) := by
  have hnew : InTable phoff n (phoff + i * PHDR_SIZE) := ⟨i, hi, rfl⟩
  unfold phdrStep at h
  dsimp only at h
  split at h
  · split at h
    · cases h
    · cases h
      exact hs
  split at h
  · cases h
    exact ⟨hs.1, hs.2.1, hs.2.2.1, fun p hp => by cases hp; exact hnew⟩
  split at h
  · cases h
    exact ⟨fun p hp => by cases hp; exact hnew, hs.2.1, hs.2.2.1, hs.2.2.2⟩
  split at h
  · cases h
    exact ⟨hs.1, fun p hp => by cases hp; exact hnew, hs.2.2.1, hs.2.2.2⟩
  split at h
  · cases h
    exact ⟨hs.1, hs.2.1, fun p hp => by cases hp; exact hnew, hs.2.2.2⟩
  · cases h
    exact hs

/-- A call that raises no error has checked the header table's place, run the loop over the
whole table, and checked the dynamic segment's end. -/
lemma parseElf_eq_ok {sp : AddressSpace} {filename : String} {data : Mem} {size : Nat}
    {mode : Mode} {rs rs' : σ} {pic : Bool} {info : ElfInfo}
    (h : parseElf reserve sp filename data size mode rs = .ok (pic, info, rs')) :
    EHDR_SIZE ≤ e_phoff data ∧ e_phoff data < size ∧
      u64 (e_phoff data + e_phnum data * PHDR_SIZE) ≤ size ∧
      (∃ rs₀, (List.range (e_phnum data)).foldlM (phdrStep reserve data (e_phoff data))
        (ElfInfo.empty, rs₀) = .ok (info, rs')) ∧
      dynamicCheck filename data size info = .ok () := by
  unfold parseElf at h
  obtain ⟨c1, h⟩ := ok_of_ite_throw h
  obtain ⟨-, h⟩ := ok_of_ite_throw h
  obtain ⟨-, h⟩ := ok_of_ite_throw h
  obtain ⟨-, h⟩ := ok_of_ite_throw h
  obtain ⟨-, h⟩ := ok_of_ite_throw h
  obtain ⟨-, h⟩ := ok_of_ite_throw h
  obtain ⟨c7, h⟩ := ok_of_ite_throw h
  obtain ⟨-, h⟩ := ok_of_ite_throw h
  obtain ⟨c9, h⟩ := ok_of_ite_throw h
  obtain ⟨⟨pic₀, pie, rs₁⟩, -, h⟩ := bind_eq_ok.mp h
  obtain ⟨rs₂, -, h⟩ := bind_eq_ok.mp h
  obtain ⟨⟨info₀, rs₃⟩, hloop, h⟩ := bind_eq_ok.mp h
  obtain ⟨⟨⟩, hdyn, h⟩ := bind_eq_ok.mp h
  cases h
  exact ⟨by omega, by omega, by omega, ⟨rs₂, hloop⟩, hdyn⟩

/-- A call that raises no error leaves the program-header table inside the image, after the
ELF header, and records only headers of that table. -/
lemma parseElf_table {sp : AddressSpace} {filename : String} {data : Mem} {size : Nat}
    {mode : Mode} {rs rs' : σ} {pic : Bool} {info : ElfInfo} (hsize : size < 2 ^ 63)
    (h : parseElf reserve sp filename data size mode rs = .ok (pic, info, rs')) :
    EHDR_SIZE ≤ e_phoff data ∧ e_phoff data + e_phnum data * PHDR_SIZE ≤ size ∧
      info.All (InTable (e_phoff data) (e_phnum data)) := by
  obtain ⟨h1, h2, h3, ⟨rs₀, hloop⟩, -⟩ := parseElf_eq_ok reserve h
  have hn := Mem.readLE_lt data 56 2
  rw [← Nat.cast_mul, ← Nat.cast_add, u64_natCast (by unfold e_phnum PHDR_SIZE at *; omega)] at h3
  refine ⟨h1, by exact_mod_cast h3, ?_⟩
  exact foldlM_inv (fun s : ElfInfo × σ => s.1.All (InTable (e_phoff data) (e_phnum data)))
    (fun _ i _ hi hs hstep => phdrStep_inTable reserve (List.mem_range.mp hi) hs hstep)
    (b := (ElfInfo.empty, rs₀)) ⟨nofun, nofun, nofun, nofun⟩ hloop

/-- The recorded dynamic segment ends inside the image unless its end, computed in 64 bits,
wraps. -/
lemma parseElf_dynamic_le {sp : AddressSpace} {filename : String} {data : Mem} {size : Nat}
    {mode : Mode} {rs rs' : σ} {pic : Bool} {info : ElfInfo}
    (h : parseElf reserve sp filename data size mode rs = .ok (pic, info, rs')) {phdr : Nat}
    (hphdr : info.phdrDynamic = some phdr) (hlt : p_offset data phdr + p_memsz data phdr < 2 ^ 64) :
    p_offset data phdr + p_memsz data phdr ≤ size := by
  obtain ⟨-, -, -, -, hdyn⟩ := parseElf_eq_ok reserve h
  unfold dynamicCheck at hdyn
  rw [hphdr] at hdyn
  obtain ⟨hle, -⟩ := ok_of_ite_throw hdyn
  rw [← Nat.cast_add, u64_natCast hlt] at hle
  omega

end Parse

lemma InTable.inside {phoff n size phdr : Nat} (h : InTable phoff n phdr) (h1 : EHDR_SIZE ≤ phoff)
    (h2 : phoff + n * PHDR_SIZE ≤ size) : EHDR_SIZE ≤ phdr ∧ phdr + PHDR_SIZE ≤ size := by
  obtain ⟨i, hi, rfl⟩ := h
  have := Nat.mul_le_mul_right PHDR_SIZE (Nat.succ_le_of_lt hi)
  unfold PHDR_SIZE at *
  constructor <;> omega

/-- A call that raises no error leaves the program-header table inside the image, after the
ELF header, and every header it records is an entry of that table, inside the image; the
dynamic segment recorded ends inside the image unless its end, computed in 64 bits, wraps. -/
theorem parseElf_phdrs_inside {σ : Type} {reserve : σ → Int → Int → Option σ}
    {sp : AddressSpace} {filename : String} {data : Mem} {size : Nat} {mode : Mode}
    {rs rs' : σ} {pic : Bool} {info : ElfInfo} (hsize : size < 2 ^ 63)
    (h : parseElf reserve sp filename data size mode rs = .ok (pic, info, rs')) :
    EHDR_SIZE ≤ e_phoff data ∧ e_phoff data + e_phnum data * PHDR_SIZE ≤ size ∧
      info.All (InTable (e_phoff data) (e_phnum data)) ∧
      info.All (fun phdr => EHDR_SIZE ≤ phdr ∧ phdr + PHDR_SIZE ≤ size) ∧
      ∀ phdr, info.phdrDynamic = some phdr →
        p_offset data phdr + p_memsz data phdr < 2 ^ 64 →
          p_offset data phdr + p_memsz data phdr ≤ size := by
  obtain ⟨h1, h2, hall⟩ := parseElf_table reserve hsize h
  exact ⟨h1, h2, hall, hall.imp fun _ hp => hp.inside h1 h2,
    fun _ hphdr hlt => parseElf_dynamic_le reserve h hphdr hlt⟩

/-- A 120-byte image: an ELF header for a position-independent x86-64 file, and one program
header, a `PT_DYNAMIC` at file offset `off` with `p_memsz = 16`. -/
def dynamicImage (off : Nat) : Mem :=
  (((((((Mem.write (fun _ => 0) 0 [0x7f, 0x45, 0x4c, 0x46, 2, 1, 1]).writeLE 16 2 ET_DYN).writeLE
    18 2 EM_X86_64).writeLE 32 8 EHDR_SIZE).writeLE 56 2 1).writeLE EHDR_SIZE 4 PT_DYNAMIC).writeLE
    (EHDR_SIZE + 8) 8 off).writeLE (EHDR_SIZE + 40) 8 DYN_SIZE

/-- The bounds on the image whose dynamic segment is its last 56 bytes. -/
theorem parseElf_phdrs_inside_dynamicImage :
    120 < 2 ^ 63 ∧
      parseElf (fun (_ : Unit) _ _ => some ()) ⟨fun _ => false, id, 0⟩ "a.out" (dynamicImage 64)
        120 .elfExe () = .ok (true, ⟨none, none, none, some EHDR_SIZE⟩, ()) ∧
      EHDR_SIZE ≤ e_phoff (dynamicImage 64) ∧
      e_phoff (dynamicImage 64) + e_phnum (dynamicImage 64) * PHDR_SIZE ≤ 120 ∧
      ElfInfo.All (InTable (e_phoff (dynamicImage 64)) (e_phnum (dynamicImage 64)))
        ⟨none, none, none, some EHDR_SIZE⟩ ∧
      ElfInfo.All (fun phdr => EHDR_SIZE ≤ phdr ∧ phdr + PHDR_SIZE ≤ 120)
        ⟨none, none, none, some EHDR_SIZE⟩ ∧
      ∀ phdr, (⟨none, none, none, some EHDR_SIZE⟩ : ElfInfo).phdrDynamic = some phdr →
        p_offset (dynamicImage 64) phdr + p_memsz (dynamicImage 64) phdr < 2 ^ 64 →
          p_offset (dynamicImage 64) phdr + p_memsz (dynamicImage 64) phdr ≤ 120 := by
  have h : parseElf (fun (_ : Unit) _ _ => some ()) ⟨fun _ => false, id, 0⟩ "a.out"
      (dynamicImage 64) 120 .elfExe () = .ok (true, ⟨none, none, none, some EHDR_SIZE⟩, ()) := rfl
  exact ⟨by decide, h, parseElf_phdrs_inside (by decide) h⟩

/-- `parseElf` accepts the image whose dynamic segment starts at `2 ^ 64 - 8` as an
executable, whatever the reservation state, and records that segment, whose end `2 ^ 64 + 8`
lies far past the image: `p_offset + p_memsz` wraps to `8` in `uint64_t`. -/
theorem parseElf_accepts_wrapped_dynamic {σ : Type} (reserve : σ → Int → Int → Option σ)
    (sp : AddressSpace) (filename : String) (rs : σ) :
    parseElf reserve sp filename (dynamicImage (2 ^ 64 - 8)) 120 .elfExe rs =
        .ok (true, ⟨none, none, none, some EHDR_SIZE⟩, rs) ∧
      120 < p_offset (dynamicImage (2 ^ 64 - 8)) EHDR_SIZE +
        p_memsz (dynamicImage (2 ^ 64 - 8)) EHDR_SIZE :=
  ⟨rfl, by decide⟩

end E9Patch
