import E9Patch.Header

/-!
# The mapping tables

The two tables of the loader region list one record per call of the table passes: array 0
the bound calls of the preloaded chain nodes, array 1 those of the other nodes followed by
one call per refactor (`emitElf_map_tables`). The blobs the records point at are laid out
one after the other behind the refactor copies. The guard on `--loader-base` covers the
trampoline records only (`emitElf_trampoline_records_below_base`): a refactor record is
never compared with the loader base (`emitElf_refactor_record_above_base`).
-/

namespace E9Patch

/-! ### Where the blobs go -/

lemma totalSize_mod {rs : List Refactor} (h : ∀ r ∈ rs, r.size % PAGE_SIZE = 0) :
    totalSize rs % PAGE_SIZE = 0 := by
  induction rs with
  | nil => rfl
  | cons r rs ih =>
    rw [totalSize_cons, Nat.add_mod, h r (List.mem_cons_self _ _),
      ih fun r' hr => h r' (List.mem_cons_of_mem _ hr), Nat.add_zero, Nat.zero_mod]

/-- Step (3) lays the blobs out in order from `size` on, each right after the one before. -/
lemma blobOffsets_layout (s : Nat) (ms : List Mapping) :
    (ms.zip (blobOffsets s ms)).Pairwise (fun a b => a.2 + a.1.size ≤ b.2) ∧
      ∀ x ∈ ms.zip (blobOffsets s ms), s ≤ x.2 ∧ x.2 + x.1.size ≤ s + (ms.map Mapping.size).sum := by
  induction ms generalizing s with
  | nil => simp [blobOffsets]
  | cons m ms ih =>
    obtain ⟨hp, hb⟩ := ih (s + m.size)
    simp only [blobOffsets, List.zip_cons_cons, List.pairwise_cons, List.mem_cons, forall_eq_or_imp,
      List.map_cons, List.sum_cons]
    refine ⟨⟨fun x hx => ?_, hp⟩, ⟨le_rfl, by omega⟩, fun x hx => ?_⟩ <;>
    · have := hb x hx
      omega

lemma blobOffsets_aligned {s : Nat} {ms : List Mapping} (hs : s % PAGE_SIZE = 0)
    (hm : ∀ m ∈ ms, m.size % PAGE_SIZE = 0) : ∀ o ∈ blobOffsets s ms, o % PAGE_SIZE = 0 := by
  induction ms generalizing s with
  | nil => nofun
  | cons m ms ih =>
    simp only [blobOffsets, List.mem_cons, forall_eq_or_imp]
    exact ⟨hs, ih (by rw [Nat.add_mod, hs, hm m (List.mem_cons_self _ _), Nat.add_zero, Nat.zero_mod])
      fun m' h => hm m' (List.mem_cons_of_mem _ h)⟩

lemma bytesAt_write_blobs (d : Mem) (s : Nat) (ms : List Mapping) :
    ∀ x ∈ ms.zip (blobOffsets s ms), (d.write s (blobs ms)).bytesAt x.2 x.1.size = x.1.image := by
  induction ms generalizing d s with
  | nil => nofun
  | cons m ms ih =>
    intro x hx
    have e : d.write s (blobs (m :: ms)) = (d.write s m.image).write (s + m.size) (blobs ms) := by
      rw [← m.image_length, Mem.write_append]
      rfl
    rw [e]
    rcases List.mem_cons.mp hx with rfl | hx
    · dsimp only
      have hw := Mem.bytesAt_write d s m.image
      rw [m.image_length] at hw
      exact (Mem.bytesAt_congr fun k hk => Mem.write_of_lt (by omega)).trans hw
    · exact ih _ _ x hx

/-! ### The records of a run -/

/-- Modelled from the spec: the call for the bound `[lb, ub)` of the chain node `m` of a head
whose blob is at `offset`, `(m.base + lb, ub - lb, offset + lb, r/w/x of m.prot)`, in the types
of `emitLoaderMap`'s parameters. -/
def specBoundCall (m : MapNode) (offset lb ub : Int) : MapCall :=
  ⟨toIntptr (m.base + lb), u64 (ub - lb), toIntptr (offset + lb),
    m.prot &&& PROT_READ != 0, m.prot &&& PROT_WRITE != 0, m.prot &&& PROT_EXEC != 0⟩

/-- Modelled from the spec: the call for a refactor, `(r.addr, r.size, r.patched.offset)`,
read and execute. -/
def specRefactorCall (r : Refactor) : MapCall := ⟨r.addr, r.size, r.patchedOffset, true, false, true⟩

/-- Modelled from the spec: the calls that fill a table, heads in mapping-set order, each
chain head first, the nodes whose preload flag is `preload`, each bound in order. -/
def specTableCalls (preload : Bool) (heads : List (Mapping × Nat)) : List MapCall :=
  heads.flatMap fun mo => (mo.1.chain.filter fun m => m.preload = preload).flatMap fun m =>
    m.bounds.map fun b => specBoundCall m mo.2 b.1 b.2

lemma tableCalls_eq_spec (preload : Bool) (heads : List (Mapping × Nat)) :
    tableCalls preload heads = specTableCalls preload heads := rfl

lemma postloadCalls_eq_spec (heads : List (Mapping × Nat)) (rs : List Refactor) :
    postloadCalls heads rs = specTableCalls false heads ++ rs.map specRefactorCall := rfl

/-- A run of `emitElf` over an input that is zero past its end: array 0 holds the record of
every bound call of the preloaded nodes, array 1 that of every bound call of the other nodes
and then of every refactor call, each at its index, and the counters hold their numbers. When the mapping sizes are page multiples, the
blobs are page-aligned, in order and apart, after the refactor copies and before the
region. -/
theorem emitElf_map_tables {sp : AddressSpace} {opts : Options} {loader : Loader}
    {B : Binary} {mappings : List Mapping} {ms : Nat} {data' : Mem} {size : Nat}
    {offsets : List Nat} (hz : ∀ j, B.size ≤ j → B.data j = 0) (hs : ElfSites B)
    (h : emitElf sp opts loader B mappings ms = .ok (data', size, offsets)) :
    ∃ data₂ g rs, emitRefactoredPatch opts.option_loader_static B.original B.data
        (pageRoundUp B.size) ms B.Is = .ok (data₂, g, rs) ∧
      offsets = blobOffsets (pageRoundUp B.size + g) mappings ∧
      data'.readLE (configOffset B g mappings + Config.numMaps) 4 =
        (specTableCalls true (mappings.zip offsets)).length % 2 ^ 32 ∧
      data'.readLE (configOffset B g mappings + Config.numMaps + 4) 4 =
        (specTableCalls false (mappings.zip offsets) ++ rs.map specRefactorCall).length % 2 ^ 32 ∧
      (∀ k (hk : k < (specTableCalls true (mappings.zip offsets)).length),
        E9Map.read data' (configOffset B g mappings +
            (CONFIG_SIZE + loader.CONFIG_ELF_SIZE + 8 * B.inits.length + E9_MAP_SIZE * k)) =
          (specTableCalls true (mappings.zip offsets))[k].record sp) ∧
      (∀ k (hk : k < (specTableCalls false (mappings.zip offsets) ++ rs.map specRefactorCall).length),
        E9Map.read data' (configOffset B g mappings +
            (CONFIG_SIZE + loader.CONFIG_ELF_SIZE + 8 * B.inits.length +
              E9_MAP_SIZE * (specTableCalls true (mappings.zip offsets)).length + E9_MAP_SIZE * k)) =
          (specTableCalls false (mappings.zip offsets) ++ rs.map specRefactorCall)[k].record sp) ∧
      ((∀ m ∈ mappings, m.size % PAGE_SIZE = 0) →
        (∀ o ∈ offsets, o % PAGE_SIZE = 0) ∧
        (mappings.zip offsets).Pairwise (fun a b => a.2 + a.1.size ≤ b.2) ∧
        ∀ x ∈ mappings.zip offsets, pageRoundUp B.size + totalSize rs ≤ x.2 ∧
          x.2 + x.1.size ≤ configOffset B g mappings) := by
  obtain ⟨data₂, g, rs, -, h₂, -, hoff, -, -, -, hout, -⟩ := emitElf_output hz hs h
  obtain ⟨-, -, hg, hrs⟩ := emitRefactoredPatch_frame h₂
  have hR : HoldsRegion data' (configOffset B g mappings) _ := hout
  obtain ⟨-, -, -, fk0, -, fk1, -⟩ := regionFields sp opts loader B _ rs hR
  obtain ⟨hr0, hr1⟩ := regionRecords sp opts loader B _ rs hR
  simp only [tableCalls_eq_spec, postloadCalls_eq_spec] at fk0 fk1 hr0 hr1
  refine ⟨data₂, g, rs, h₂, hoff, fk0, fk1, hr0, hr1, fun hm => ?_⟩
  obtain ⟨hp, hb⟩ := blobOffsets_layout (pageRoundUp B.size + g) mappings
  have hco := le_pageRoundUp (pageRoundUp B.size + g + (blobs mappings).length)
  rw [blobs_length] at hco
  subst hoff
  refine ⟨blobOffsets_aligned ?_ hm, hp, fun x hx => ?_⟩
  · rw [Nat.add_mod, pageRoundUp_mod, hg, totalSize_mod hrs, Nat.add_zero, Nat.zero_mod]
  · have := hb x hx
    unfold configOffset
    rw [blobs_length]
    omega

/-- A sample mapping: a preloaded read-execute head at `0x500000` with one bound, and a
read-write node at `0x600000` with two. -/
def sampleMapping : Mapping where
  head := ⟨0x500000, 5, true, [(0, 0x1000)]⟩
  merged := [⟨0x600000, 3, false, [(0, 0x1000), (0x2000, 0x3000)]⟩]
  size := 1
  image := [0xC3]
  image_length := rfl

lemma sample_mapping_run : ∃ data',
    emitElf sampleSpace sampleOptions sampleLoader sampleImage [sampleMapping] 0 = .ok (data', 8334, [4096]) := by
  obtain ⟨⟨data', size, offsets⟩, h, hr⟩ := exists_ok_of_toOption
    (show (emitElf sampleSpace sampleOptions sampleLoader sampleImage [sampleMapping] 0).toOption.map
      (fun r : Mem × Nat × List Nat => (r.2.1, r.2.2)) = some (8334, [4096]) by decide)
  obtain ⟨rfl, rfl⟩ := Prod.mk.inj hr
  exact ⟨data', h⟩

/-- The run over `sampleMapping`: array 0 holds the head's one bound, array 1 the two bounds
of the read-write node, the second at `lb = 0x2000`. -/
theorem sample_map_tables : ∃ data' data₂ g rs,
    emitElf sampleSpace sampleOptions sampleLoader sampleImage [sampleMapping] 0 = .ok (data', 8334, [4096]) ∧
      emitRefactoredPatch true sampleImage.original sampleImage.data PAGE_SIZE 0 sampleImage.Is =
        .ok (data₂, g, rs) ∧
      E9Map.read data' (configOffset sampleImage g [sampleMapping] + (CONFIG_SIZE + sampleLoader.CONFIG_ELF_SIZE + 8)) =
        (specBoundCall sampleMapping.head 4096 0 0x1000).record sampleSpace ∧
      E9Map.read data' (configOffset sampleImage g [sampleMapping] +
          (CONFIG_SIZE + sampleLoader.CONFIG_ELF_SIZE + 8 + E9_MAP_SIZE * 1 + E9_MAP_SIZE * 1)) =
        (specBoundCall ⟨0x600000, 3, false, [(0, 0x1000), (0x2000, 0x3000)]⟩ 4096 0x2000 0x3000).record
          sampleSpace := by
  obtain ⟨data', h⟩ := sample_mapping_run
  obtain ⟨data₂, g, rs, h₂, -, -, -, hr0, hr1, -⟩ :=
    emitElf_map_tables (fun _ _ => rfl) sampleImage_sites h
  obtain ⟨-, -, rfl⟩ := by
    simpa only [Except.ok.injEq, Prod.mk.injEq] using h₂.symm.trans (show emitRefactoredPatch true
      sampleImage.original sampleImage.data PAGE_SIZE 0 sampleImage.Is = .ok (sampleImage.data, 0, []) from rfl)
  exact ⟨data', data₂, g, _, h, h₂, hr0 0 (by decide), hr1 1 (by decide)⟩

/-! ### The guard on the loader base -/

/-- A record of a call that passed the checks and the guard, and is relative, starts at or
below the loader base. -/
lemma record_le_base {sp : AddressSpace} {c : MapCall} {base : Int}
    (hbase : ∀ a, sp.IS_ABSOLUTE a = false → sp.BASE_ADDRESS a = a) (hb0 : 0 ≤ base)
    (hfit : c.Fits sp) (hub : sp.IS_ABSOLUTE c.addr = false → c.addr ≤ base)
    (habs : (c.record sp).abs = false) : (c.record sp).addr * PAGE_SIZE ≤ base := by
  have hc := hub habs
  rw [(MapCall.record_of_fits hfit).1, hbase _ habs, PAGE_SIZE_int]
  rcases le_or_lt 0 c.addr with ha | ha
  · rw [Int.tdiv_eq_ediv ha (by decide)]
    have := Int.ediv_mul_le c.addr (show (4096 : Int) ≠ 0 by decide)
    omega
  · have e : c.addr = -(-c.addr) := by omega
    rw [e, Int.neg_tdiv, Int.tdiv_eq_ediv (by omega) (by decide)]
    have := Int.ediv_nonneg (a := -c.addr) (b := 4096) (by omega) (by decide)
    omega

/-- For an address space whose relative addresses are their own base, and a non-negative
loader base, every relative record of a trampoline, in array 0 or ahead of the refactor
records of array 1, starts at or below the loader base. -/
theorem emitElf_trampoline_records_below_base {sp : AddressSpace} {opts : Options}
    {loader : Loader} {B : Binary} {mappings : List Mapping} {ms : Nat} {data' : Mem}
    {size : Nat} {offsets : List Nat}
    (hbase : ∀ a, sp.IS_ABSOLUTE a = false → sp.BASE_ADDRESS a = a)
    (hb0 : 0 ≤ opts.option_loader_base) (hz : ∀ j, B.size ≤ j → B.data j = 0) (hs : ElfSites B)
    (h : emitElf sp opts loader B mappings ms = .ok (data', size, offsets)) :
    ∃ g, offsets = blobOffsets (pageRoundUp B.size + g) mappings ∧
      (∀ k < (tableCalls true (mappings.zip offsets)).length,
        let e := E9Map.read data' (configOffset B g mappings +
          (CONFIG_SIZE + loader.CONFIG_ELF_SIZE + 8 * B.inits.length + E9_MAP_SIZE * k))
        e.abs = false → e.addr * PAGE_SIZE ≤ opts.option_loader_base) ∧
      ∀ k < (tableCalls false (mappings.zip offsets)).length,
        let e := E9Map.read data' (configOffset B g mappings +
          (CONFIG_SIZE + loader.CONFIG_ELF_SIZE + 8 * B.inits.length +
            E9_MAP_SIZE * (tableCalls true (mappings.zip offsets)).length + E9_MAP_SIZE * k))
        e.abs = false → e.addr * PAGE_SIZE ≤ opts.option_loader_base := by
  obtain ⟨data₂, g, rs, entry, -, -, hoff, ⟨data₄, hL⟩, -, -, hout, -⟩ := emitElf_output hz hs h
  have hR : HoldsRegion data' (configOffset B g mappings) _ := hout
  obtain ⟨hr0, hr1⟩ := regionRecords sp opts loader B _ rs hR
  obtain ⟨hfit, hub⟩ := emitLoader_calls hL
  refine ⟨g, hoff, fun k hk => ?_, fun k hk => ?_⟩
  · have hc := List.getElem_mem hk
    rw [hr0 k hk]
    exact record_le_base hbase hb0 (hfit _ (List.mem_append_left _ hc))
      (hub _ (List.mem_append_left _ hc))
  · have hk' : k < (postloadCalls (mappings.zip offsets) rs).length := by
      simp only [postloadCalls, List.length_append]
      omega
    have hc := List.getElem_mem hk
    have e : (postloadCalls (mappings.zip offsets) rs)[k] = (tableCalls false (mappings.zip offsets))[k] :=
      List.getElem_append_left hk
    rw [hr1 k hk', e]
    exact record_le_base hbase hb0
      (hfit _ (List.mem_append_right _ (List.mem_append_left _ hc)))
      (hub _ (List.mem_append_right _ hc))

theorem sample_trampoline_records_below_base : ∃ data',
    emitElf sampleSpace sampleOptions sampleLoader sampleImage [sampleMapping] 0 = .ok (data', 8334, [4096]) ∧
      ∃ g, [4096] = blobOffsets (pageRoundUp sampleImage.size + g) [sampleMapping] ∧
        (∀ k < (tableCalls true ([sampleMapping].zip [4096])).length,
          let e := E9Map.read data' (configOffset sampleImage g [sampleMapping] +
            (CONFIG_SIZE + sampleLoader.CONFIG_ELF_SIZE + 8 * sampleImage.inits.length + E9_MAP_SIZE * k))
          e.abs = false → e.addr * PAGE_SIZE ≤ sampleOptions.option_loader_base) ∧
        ∀ k < (tableCalls false ([sampleMapping].zip [4096])).length,
          let e := E9Map.read data' (configOffset sampleImage g [sampleMapping] +
            (CONFIG_SIZE + sampleLoader.CONFIG_ELF_SIZE + 8 * sampleImage.inits.length +
              E9_MAP_SIZE * (tableCalls true ([sampleMapping].zip [4096])).length + E9_MAP_SIZE * k))
          e.abs = false → e.addr * PAGE_SIZE ≤ sampleOptions.option_loader_base := by
  obtain ⟨data', h⟩ := sample_mapping_run
  exact ⟨data', h, emitElf_trampoline_records_below_base (fun _ _ => rfl) (by decide)
    (fun _ _ => rfl) sampleImage_sites h⟩

/-- A one-page executable whose first byte was patched, at `0x400000`. -/
def patchedPageImage : Binary where
  original := fun _ => 0
  data := fun i => if i = 0 then 1 else 0
  size := PAGE_SIZE
  mode := .elfExe
  Is := ⟨[⟨0x400000, 0⟩], by decide⟩
  inits := []
  mmap := INTPTR_MIN
  elf := ⟨some 64, none, none, none⟩

/-- Refactoring on, the loader at `0x100000`, below the patched page. -/
def lowBaseOptions : Options := ⟨false, 0x100000, PT_NOTE, false⟩

def emptyLoader : Loader := ⟨[], 8, le_rfl⟩

lemma patchedPage_walk :
    dirtyWalk patchedPageImage.original patchedPageImage.data patchedPageImage.Is PAGE_SIZE =
      [(0x400000, 0)] := by
  have h0 : pageSame patchedPageImage.original patchedPageImage.data 0 = false :=
    pageSame_of_ne (k := 0) (by decide) (by decide)
  simp only [dirtyWalk, show pageOffsets PAGE_SIZE = [0] by decide, List.filterMap_cons,
    List.filterMap_nil, walkPage_dirty h0]
  decide

lemma patchedPage_assertions :
    AssertionsHold patchedPageImage.original patchedPageImage.data patchedPageImage.Is PAGE_SIZE := by
  intro o ho _
  simp only [show pageOffsets PAGE_SIZE = [0] by decide, List.mem_singleton] at ho
  subst ho
  exact ⟨⟨0x400000, 0⟩, by decide, by decide⟩

/-- The patched page becomes a relative refactor record at `0x400000`, the first record of
array 1, above the loader base at `0x100000`; the run raises no error. -/
theorem emitElf_refactor_record_above_base : ∃ data' size,
    emitElf sampleSpace lowBaseOptions emptyLoader patchedPageImage [] 0 = .ok (data', size, []) ∧
      (E9Map.read data' (0x2000 + (CONFIG_SIZE + emptyLoader.CONFIG_ELF_SIZE))).abs = false ∧
      lowBaseOptions.option_loader_base <
        (E9Map.read data' (0x2000 + (CONFIG_SIZE + emptyLoader.CONFIG_ELF_SIZE))).addr * PAGE_SIZE := by
  have hc : clusterWalk 0 [(0x400000, 0)] = [⟨0x400000, 0x1000, 0, 0⟩] := by decide
  have h₂ : emitRefactoredPatch lowBaseOptions.option_loader_static patchedPageImage.original
      patchedPageImage.data (pageRoundUp patchedPageImage.size) 0 patchedPageImage.Is =
        .ok (restoreAll patchedPageImage.original patchedPageImage.data PAGE_SIZE
          [⟨0x400000, 0x1000, 0, 0⟩], 0x1000, [⟨0x400000, 0x1000, 0, 0x1000⟩]) := by
    rw [show pageRoundUp patchedPageImage.size = PAGE_SIZE from rfl,
      show lowBaseOptions.option_loader_static = false from rfl,
      emitRefactoredPatch_eq _ _ _ _ _ (by decide) patchedPage_assertions, patchedPage_walk, hc]
    rfl
  obtain ⟨⟨data', size, offsets⟩, h, hr⟩ := exists_ok_of_toOption
    (show (emitElf sampleSpace lowBaseOptions emptyLoader patchedPageImage [] 0).toOption.map
      (fun r : Mem × Nat × List Nat =>
        ((E9Map.read r.1 (0x2000 + (CONFIG_SIZE + emptyLoader.CONFIG_ELF_SIZE))).abs,
          decide (lowBaseOptions.option_loader_base <
            (E9Map.read r.1 (0x2000 + (CONFIG_SIZE + emptyLoader.CONFIG_ELF_SIZE))).addr * PAGE_SIZE), r.2.2)) =
      some (false, true, []) by
    simp only [emitElf, emitPatches, h₂]
    decide)
  simp only [Prod.mk.injEq, decide_eq_true_eq] at hr
  obtain ⟨h1, h2, rfl⟩ := hr
  exact ⟨data', size, h, h1, h2⟩

end E9Patch
