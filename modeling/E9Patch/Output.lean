import E9Patch.Pipeline

/-!
# What `emitElf` leaves in the buffer

Over an input that is zero past its end and whose program headers lie inside it, a run of
`emitElf` that raises no error leaves the loader region at the page-aligned end of the
trampolines, holding `loaderRegion` byte for byte except the three fields step (5) stores
(`emitElf_output`). The records of the mapping tables read back as the calls that made
them (`E9Map.read_write`, `MapCall.record`).
-/

namespace E9Patch

/-! ### Records read back -/

lemma E9Map.read_congr {m m' : Mem} {pos : Nat}
    (h : ∀ k < E9_MAP_SIZE, m (pos + k) = m' (pos + k)) : E9Map.read m pos = E9Map.read m' pos := by
  have hw : ∀ o, o + 4 ≤ E9_MAP_SIZE → m.readLE (pos + o) 4 = m'.readLE (pos + o) 4 := fun o ho =>
    Mem.readLE_congr fun k hk => by rw [Nat.add_assoc]; exact h _ (by omega)
  have h0 := hw 0 (by decide)
  have h1 := hw 4 (by decide)
  have h2 := hw 8 (by decide)
  simp only [Nat.add_zero] at h0
  ext <;> simp only [E9Map.read, h0, h1, h2]

lemma E9Map.read_write (m : Mem) (p : Nat) (pre : List UInt8) (e : E9Map) (post : List UInt8) :
    E9Map.read (m.write p (pre ++ e.bytes ++ post)) (p + pre.length) = e := by
  have hb : e.bytes.length = E9_MAP_SIZE := by simp [E9Map.bytes, E9_MAP_SIZE]
  conv_rhs => rw [← E9Map.read_store m (p + pre.length) e]
  refine E9Map.read_congr fun k hk => ?_
  rw [E9Map.store_eq_write, Mem.write_add (by omega), Nat.add_assoc, Mem.write_add (by simp; omega)]
  simp [List.getElem_append_right, List.getElem_append_left, hb, hk]

/-- The record `emitLoaderMap` stores for the call `c` over zero bytes, as the loader reads it. -/
def MapCall.record (sp : AddressSpace) (c : MapCall) : E9Map where
  addr := toInt32 ((sp.BASE_ADDRESS c.addr).tdiv PAGE_SIZE)
  offset := u64 c.offset / PAGE_SIZE % 2 ^ 32
  size := c.len / PAGE_SIZE % 2 ^ 16
  reserved := 0
  r := c.r
  w := c.w
  x := c.x
  abs := sp.IS_ABSOLUTE c.addr
  addr_mem := toInt32_mem _
  offset_le := by unfold UINT32_MAX; omega
  size_lt := by omega
  reserved_lt := by norm_num

lemma MapCall.bytes_eq_record (sp : AddressSpace) (c : MapCall) : c.bytes sp = (c.record sp).bytes := by
  have ha : u32 (toInt32 ((sp.BASE_ADDRESS c.addr).tdiv PAGE_SIZE)) =
      u32 ((sp.BASE_ADDRESS c.addr).tdiv PAGE_SIZE) := by
    simp only [u32, toInt32]
    rw [show ((2 : Int) ^ 32) = ((2 ^ 32 : Nat) : Int) by norm_num, Int.bmod_emod]
  simp only [MapCall.bytes, E9Map.bytes, MapCall.record, E9Map.word, ha]
  rw [show (2 : Nat) ^ 32 = 256 ^ 4 by norm_num, leBytes_mod]
  simp

lemma MapCall.record_of_fits {sp : AddressSpace} {c : MapCall} (h : c.Fits sp) :
    (c.record sp).addr = (sp.BASE_ADDRESS c.addr).tdiv PAGE_SIZE ∧
      (c.record sp).offset = u64 c.offset / PAGE_SIZE := by
  obtain ⟨h1, h2, -, h4⟩ := h
  unfold UINT32_MAX at h4
  exact ⟨toInt32_of_mem ⟨h1, h2⟩, Nat.mod_eq_of_lt (by omega)⟩

/-! ### Chunks of a table -/

lemma flatMap_split {α : Type} (f : α → List UInt8) (l : List α) {k : Nat} (hk : k < l.length) :
    l.flatMap f = (l.take k).flatMap f ++ f l[k] ++ (l.drop (k + 1)).flatMap f := by
  conv_lhs => rw [← List.take_append_drop k l, List.drop_eq_getElem_cons hk]
  rw [List.flatMap_append, List.flatMap_cons, List.append_assoc]

/-! ### Steps (5) and (6) stay out of the region -/

/-- What the run assumes of the headers `parseElf` recorded: the ELF header and every
recorded program header lie inside the input, the headers after the ELF header, and, for a
shared object, whose entry site step (5) looks for in the dynamic segment, that segment lies
inside the input with its program header unpatched. -/
structure ElfSites (B : Binary) : Prop where
  ehdr : EHDR_SIZE ≤ B.size
  phdrs : B.elf.All fun p => EHDR_SIZE ≤ p ∧ p + PHDR_SIZE ≤ B.size
  dynamic : B.mode = .elfDso → ∀ p, B.elf.phdrDynamic = some p →
    (∀ k < PHDR_SIZE, B.original (p + k) = B.data (p + k)) ∧
      p_offset B.data p + p_memsz B.data p ≤ B.size

/-- Every image `parseElf` accepts has these sites, up to what the code leaves open for a
shared object: that step #1 patched the dynamic program header, and that the segment's end
wraps in 64 bits. -/
theorem parseElf_sites {σ : Type} {reserve : σ → Int → Int → Option σ} {sp : AddressSpace}
    {filename : String} {B : Binary} {rs rs' : σ} {pic : Bool} (hsize : B.size < 2 ^ 63)
    (h : parseElf reserve sp filename B.original B.size B.mode rs = .ok (pic, B.elf, rs'))
    (hdyn : B.mode = .elfDso → ∀ p, B.elf.phdrDynamic = some p →
      (∀ k < PHDR_SIZE, B.original (p + k) = B.data (p + k)) ∧
        p_offset B.original p + p_memsz B.original p < 2 ^ 64) :
    ElfSites B := by
  obtain ⟨h1, h2, hall⟩ := parseElf_table reserve hsize h
  have hphdrs := hall.imp fun _ hp => hp.inside h1 h2
  refine ⟨?_, hphdrs, fun hm p hp => ⟨(hdyn hm p hp).1, ?_⟩⟩
  · omega
  · have hf : ∀ o, o + 8 ≤ PHDR_SIZE → B.data.readLE (p + o) 8 = B.original.readLE (p + o) 8 :=
      fun o ho => Mem.readLE_congr fun k hk => by
        rw [Nat.add_assoc]
        exact ((hdyn hm p hp).1 _ (by omega)).symm
    simp only [p_offset, p_memsz, hf 8 (by decide), hf 40 (by decide)]
    exact parseElf_dynamic_le reserve h hp (hdyn hm p hp).2

/-- The 120-byte shared object of `dynamicImage`, unpatched. -/
def dynamicBinary : Binary where
  original := dynamicImage 64
  data := dynamicImage 64
  size := 120
  mode := .elfDso
  Is := ⟨[], by decide⟩
  inits := []
  mmap := 0
  elf := ⟨none, none, none, some EHDR_SIZE⟩

theorem dynamicBinary_sites : dynamicBinary.size < 2 ^ 63 ∧
    parseElf (fun (_ : Unit) _ _ => some ()) ⟨fun _ => false, id, 0⟩ "a.so" dynamicBinary.original
      dynamicBinary.size dynamicBinary.mode () = .ok (true, dynamicBinary.elf, ()) ∧
    (dynamicBinary.mode = .elfDso → ∀ p, dynamicBinary.elf.phdrDynamic = some p →
      (∀ k < PHDR_SIZE, dynamicBinary.original (p + k) = dynamicBinary.data (p + k)) ∧
        p_offset dynamicBinary.original p + p_memsz dynamicBinary.original p < 2 ^ 64) ∧
    ElfSites dynamicBinary := by
  have h : parseElf (fun (_ : Unit) _ _ => some ()) ⟨fun _ => false, id, 0⟩ "a.so"
      dynamicBinary.original dynamicBinary.size dynamicBinary.mode () =
        .ok (true, dynamicBinary.elf, ()) := rfl
  have hd : dynamicBinary.mode = .elfDso → ∀ p, dynamicBinary.elf.phdrDynamic = some p →
      (∀ k < PHDR_SIZE, dynamicBinary.original (p + k) = dynamicBinary.data (p + k)) ∧
        p_offset dynamicBinary.original p + p_memsz dynamicBinary.original p < 2 ^ 64 :=
    fun _ p hp => by
      cases hp
      exact ⟨fun _ _ => rfl, by decide⟩
  exact ⟨by decide, h, hd, parseElf_sites (by decide) h hd⟩

lemma findInit_mem {data : Mem} {dyn : Nat} (is : List Nat) {i : Nat}
    (h : findInit data dyn is = some i) : i ∈ is := by
  induction is with
  | nil => cases h
  | cons j is ih =>
    simp only [findInit] at h
    split_ifs at h
    · cases h
      exact List.mem_cons_self _ _
    · exact List.mem_cons_of_mem _ (ih h)

/-- The site step (5) stores the entry address at lies inside the input, as long as the
buffer still holds the input's dynamic program header. -/
lemma entrySite_le {B : Binary} (hs : ElfSites B) {data : Mem}
    (hagree : B.mode = .elfDso → ∀ p, B.elf.phdrDynamic = some p →
      ∀ k < PHDR_SIZE, data (p + k) = B.data (p + k))
    {site : Nat} (h : entrySite B data = some site) : site + 8 ≤ B.size := by
  unfold entrySite at h
  split at h
  · cases h
    have := hs.ehdr
    unfold EHDR_SIZE at this
    omega
  · rename_i hm
    replace hagree := hagree hm
    obtain ⟨p, hp, h⟩ := Option.bind_eq_some.mp h
    obtain ⟨i, hi, rfl⟩ := Option.map_eq_some'.mp h
    have hfield : ∀ o, o + 8 ≤ PHDR_SIZE → data.readLE (p + o) 8 = B.data.readLE (p + o) 8 :=
      fun o ho => Mem.readLE_congr fun k hk => by
        rw [Nat.add_assoc]
        exact hagree p hp _ (by omega)
    have hmem := List.mem_range.mp (findInit_mem _ hi)
    have hdyn := (hs.dynamic hm p hp).2
    simp only [p_offset, p_memsz, hfield 8 (by decide), hfield 40 (by decide)] at hmem hdyn ⊢
    unfold DYN_SIZE at hmem ⊢
    omega

lemma selectPhdr_all {P : Nat → Prop} {o : Nat} {elf : ElfInfo} (h : elf.All P) {p : Nat}
    (hp : (selectPhdr o elf).1 = some p) : P p := by
  obtain ⟨hn, hr, hs, -⟩ := h
  unfold selectPhdr at hp
  split_ifs at hp
  · exact hn p hp
  · exact hr p hp
  · exact hs p hp
  · rcases h1 : elf.phdrNote with _ | q
    · rcases h2 : elf.phdrGnuRelro with _ | q
      · simp only [h1, h2, Option.orElse] at hp
        exact hs p hp
      · simp only [h1, h2, Option.orElse, Option.some.injEq] at hp
        exact hr p (hp ▸ h2)
    · simp only [h1, Option.orElse, Option.some.injEq] at hp
      exact hn p (hp ▸ h1)

lemma storeDynamic_of_not_mem (B : Binary) (co : Nat) (data : Mem) {i : Nat}
    (h : i < co + CONFIG_SIZE ∨ co + CONFIG_SIZE + 8 ≤ i) : storeDynamic B co data i = data i := by
  unfold storeDynamic
  cases B.elf.phdrDynamic with
  | some p => exact Mem.write_of_not_mem (by simp only [leBytes_length]; omega)
  | none => rfl

lemma rewireAt_of_not_mem (B : Binary) (co : Nat) (entry : Int) (site : Nat) (data : Mem) {i : Nat}
    (h1 : i < co + Config.entry ∨ co + Config.entry + 8 ≤ i) (h2 : i < site ∨ site + 8 ≤ i)
    (h3 : i < co + Config.flags ∨ co + Config.flags + 4 ≤ i) :
    rewireAt B co entry site data i = data i := by
  have e : ((data.writeLE (co + Config.entry) 8 (data.readLE site 8)).writeLE site 8 (u64 entry)) i =
      data i := by
    simp only [Mem.writeLE]
    rw [Mem.write_of_not_mem (by simp only [leBytes_length]; omega),
      Mem.write_of_not_mem (by simp only [leBytes_length]; omega)]
  unfold rewireAt
  cases B.mode with
  | elfExe =>
    dsimp only
    rw [Mem.writeLE, Mem.write_of_not_mem (by simp only [leBytes_length]; omega), e]
  | elfDso => exact e

/-! ### The region in the output -/

/-- The bytes of the record that step (5) stores: `flags`, `entry` and
`config_elf->dynamic`. -/
def RewiredField (k : Nat) : Prop :=
  Config.flags ≤ k ∧ k < Config.flags + 4 ∨ Config.entry ≤ k ∧ k < Config.entry + 8 ∨
    CONFIG_SIZE ≤ k ∧ k < CONFIG_SIZE + 8

/-- Where the loader region starts after a refactor pass that grew the image by `g`. -/
def configOffset (B : Binary) (g : Nat) (mappings : List Mapping) : Nat :=
  pageRoundUp (pageRoundUp B.size + g + (blobs mappings).length)

/-- Steps (1) to (3) write nothing from `config_offset` on. -/
lemma emitPatches_above {opts : Options} {B : Binary} {mappings : List Mapping} {ms : Nat}
    {data₂ : Mem} {g : Nat} {rs : List Refactor}
    (h₂ : emitRefactoredPatch opts.option_loader_static B.original B.data (pageRoundUp B.size) ms
      B.Is = .ok (data₂, g, rs)) {j : Nat} (hj : configOffset B g mappings ≤ j) :
    (data₂.write (pageRoundUp B.size + g) (blobs mappings)) j = B.data j := by
  have := le_pageRoundUp (pageRoundUp B.size + g + (blobs mappings).length)
  unfold configOffset at hj
  rw [Mem.write_of_ge (by omega), (emitRefactoredPatch_frame h₂).2.1 j (by omega)]

/-- Below the page-rounded input size, steps (1) to (3) leave the original bytes inside the
refactors' ranges and the input's bytes elsewhere. -/
lemma emitPatches_below {opts : Options} {B : Binary} {mappings : List Mapping} {ms : Nat}
    {data₂ : Mem} {g : Nat} {rs : List Refactor}
    (h₂ : emitRefactoredPatch opts.option_loader_static B.original B.data (pageRoundUp B.size) ms
      B.Is = .ok (data₂, g, rs)) {i : Nat} (hi : i < pageRoundUp B.size) :
    (data₂.write (pageRoundUp B.size + g) (blobs mappings)) i =
      if ∃ r ∈ rs, r.Covers i then B.original i else B.data i := by
  rw [Mem.write_of_lt (by omega), (emitRefactoredPatch_frame h₂).1 i hi]

def Mem.bytesAt (m : Mem) (p n : Nat) : List UInt8 := (List.range n).map fun k => m (p + k)

lemma Mem.bytesAt_write (m : Mem) (p : Nat) (bs : List UInt8) : (m.write p bs).bytesAt p bs.length = bs := by
  refine List.ext_getElem (by simp [Mem.bytesAt]) fun k hk _ => ?_
  simp only [Mem.bytesAt, List.getElem_map, List.getElem_range]
  exact Mem.write_add (by simpa [Mem.bytesAt] using hk)

lemma Mem.bytesAt_congr {m m' : Mem} {p n : Nat} (h : ∀ k < n, m (p + k) = m' (p + k)) :
    m.bytesAt p n = m'.bytesAt p n :=
  List.map_congr_left fun k hk => h k (List.mem_range.mp hk)

lemma Mem.bytesAt_drop_take {m : Mem} {p n : Nat} {l : List UInt8} (h : m.bytesAt p n = l) {a k : Nat}
    (hak : a + k ≤ n) : m.bytesAt (p + a) k = (l.drop a).take k := by
  subst h
  refine List.ext_getElem (by simp [Mem.bytesAt]; omega) fun j hj _ => ?_
  simp only [Mem.bytesAt, List.length_map, List.length_range] at hj
  simp [Mem.bytesAt, Nat.add_assoc]

@[simp] lemma loaderPhdr_length (co : Nat) (base : Int) (cs : Nat) :
    (loaderPhdr co base cs).length = PHDR_SIZE := by
  simp [loaderPhdr, PHDR_SIZE]

/-- A run over an input that is zero past its end and whose headers lie inside it, stage by
stage: the refactor pass, steps (1) to (3) ending below `configOffset`, step (4) returning the
shim's address; the output holds `loaderRegion` at `configOffset` but for the fields step (5)
stores, ends with it, and holds the loader's program header at the repurposed one. -/
theorem emitElf_output {sp : AddressSpace} {opts : Options} {loader : Loader} {B : Binary}
    {mappings : List Mapping} {ms : Nat} {data' : Mem} {size : Nat} {offsets : List Nat}
    (hz : ∀ j, B.size ≤ j → B.data j = 0) (hs : ElfSites B)
    (h : emitElf sp opts loader B mappings ms = .ok (data', size, offsets)) :
    ∃ data₂ g rs entry, emitRefactoredPatch opts.option_loader_static B.original B.data
        (pageRoundUp B.size) ms B.Is = .ok (data₂, g, rs) ∧
      emitPatches opts B mappings ms = .ok (data₂.write (pageRoundUp B.size + g) (blobs mappings),
        pageRoundUp B.size + g + (blobs mappings).length, rs, offsets) ∧
      offsets = blobOffsets (pageRoundUp B.size + g) mappings ∧
      (∃ data₄, emitLoader sp opts loader B (mappings.zip offsets) rs (configOffset B g mappings)
        (data₂.write (pageRoundUp B.size + g) (blobs mappings)) = .ok (data₄, size, entry)) ∧
      entry = toIntptr (opts.option_loader_base + (shimOffset sp loader B (mappings.zip offsets) rs : Nat)) ∧
      size = configOffset B g mappings +
        (loaderRegion sp opts loader B (mappings.zip offsets) rs).length ∧
      (∀ k (hk : k < (loaderRegion sp opts loader B (mappings.zip offsets) rs).length),
        ¬RewiredField k →
          data' (configOffset B g mappings + k) =
            (loaderRegion sp opts loader B (mappings.zip offsets) rs)[k]) ∧
      ∃ p, (selectPhdr opts.option_loader_phdr B.elf).1 = some p ∧
        data'.bytesAt p PHDR_SIZE = loaderPhdr (configOffset B g mappings) opts.option_loader_base
          (size - configOffset B g mappings) := by
  obtain ⟨data₃, size₃, rs, data₄, entry, data₅, hP, hL, hR, hH⟩ := emitElf_eq_ok h
  obtain ⟨data₂, g, h₂, rfl, rfl, rfl⟩ := emitPatches_eq_ok hP
  have hS := le_pageRoundUp B.size
  have hco := le_pageRoundUp (pageRoundUp B.size + g + (blobs mappings).length)
  have hco' : configOffset B g mappings = pageRoundUp (pageRoundUp B.size + g + (blobs mappings).length) :=
    rfl
  have hz₃ : ∀ j, pageRoundUp (pageRoundUp B.size + g + (blobs mappings).length) ≤ j →
      (data₂.write (pageRoundUp B.size + g) (blobs mappings)) j = 0 := fun j hj => by
    rw [emitPatches_above h₂ hj, hz j (by omega)]
  have hL' := hL
  obtain ⟨rfl, rfl, he⟩ := emitLoader_region hz₃ hL
  obtain ⟨site, hsite, rfl⟩ := rewireEntry_eq_ok hR
  obtain ⟨p, hp, rfl⟩ := repurposePhdr_eq_ok hH
  refine ⟨data₂, g, rs, entry, h₂, hP, rfl, ⟨_, hL'⟩, he, rfl, fun k hk hf => ?_, p, hp, ?_⟩
  · rw [hco']
    have hphdr := (selectPhdr_all hs.phdrs hp).2
    have hsite' : site + 8 ≤ B.size := entrySite_le hs (fun hm q hq k hk => by
      have hq' := (hs.phdrs.2.2.2 q hq).2
      rw [storeDynamic_of_not_mem _ _ _ (by omega), Mem.write_of_lt (by omega),
        emitPatches_below h₂ (by omega)]
      split_ifs
      · exact (hs.dynamic hm q hq).1 k hk
      · rfl) hsite
    simp only [RewiredField, Config.flags, Config.entry, CONFIG_SIZE, not_or, not_and, not_lt] at hf
    unfold PHDR_SIZE at hphdr
    rw [Mem.write_of_not_mem (by simp only [loaderPhdr, List.length_append, leBytes_length]; omega),
      rewireAt_of_not_mem _ _ _ _ _ (by unfold Config.entry; omega) (by omega)
        (by unfold Config.flags; omega),
      storeDynamic_of_not_mem _ _ _ (by unfold CONFIG_SIZE; omega), Mem.write_add hk]
  · rw [← loaderPhdr_length (configOffset B g mappings) opts.option_loader_base]
    exact Mem.bytesAt_write _ _ _

end E9Patch
