import E9Patch.LoaderView

/-!
# The loader maps the patched pages back

Step #2 of the refactor pass puts the original bytes back in the image and appends a copy of
each refactor; array 1 of the loader region ends with one record per refactor. Read as the
loader reads it, each of those records maps the copy step #2 made, read and execute, at the
refactor's address (`emitElf_refactor_view`). Inside one segment the copies hold the patched
pages, so the loader maps every page the patch changed back with its patched bytes, at the
page's distance from the address of a refactor (`emitElf_remaps_patched_pages`).

The two results meet at the bytes from the page-rounded input size up to `config_offset`:
step #2 leaves its copies there and the later steps of `emitElf` do not write there.
-/

namespace E9Patch

/-- What a refactor asks the loader for: the bytes of its copy in `file`, read and execute,
at its address. -/
def refactorView (sp : AddressSpace) (file : Mem) (r : Refactor) : LoaderMapping :=
  ⟨sp.BASE_ADDRESS r.addr, sp.IS_ABSOLUTE r.addr, true, false, true,
    file.bytesAt r.patchedOffset.toNat r.size⟩

/-- The loader mapping `v`, recorded for the address `a`, maps `bytes` read and execute at
the address `a'`: the part of `v` at `a'`'s distance from `a` is `bytes`. -/
def LoaderMapping.MapsCodeAt (sp : AddressSpace) (v : LoaderMapping) (a a' : Int)
    (bytes : List UInt8) : Prop :=
  v.addr = sp.BASE_ADDRESS a ∧ v.abs = sp.IS_ABSOLUTE a ∧ v.r = true ∧ v.w = false ∧ v.x = true ∧
    a ≤ a' ∧ (v.bytes.drop (a' - a).toNat).take bytes.length = bytes

@[simp] lemma Mem.bytesAt_length (m : Mem) (p n : Nat) : (m.bytesAt p n).length = n := by
  simp [Mem.bytesAt]

/-- The record of a refactor call that passed the checks maps the refactor's copy, when the
copy is whole pages, shorter than `2 ^ 16` pages, at a page-aligned offset below `2 ^ 64`. -/
lemma refactorCall_view {sp : AddressSpace} {r : Refactor} {file : Mem}
    (hfit : (refactorCall r).Fits sp) (ha : sp.BASE_ADDRESS r.addr % PAGE_SIZE = 0)
    (hsz : r.size % PAGE_SIZE = 0) (hlt : r.size < 2 ^ 16 * PAGE_SIZE) (h0 : 0 ≤ r.patchedOffset)
    (ho : r.patchedOffset % PAGE_SIZE = 0) (h64 : r.patchedOffset < 2 ^ 64) :
    ((refactorCall r).record sp).view file = refactorView sp file r := by
  obtain ⟨ha', ho'⟩ := MapCall.record_of_fits hfit
  have hP := PAGE_SIZE_int
  have hoffs : (u64 r.patchedOffset : Int) = r.patchedOffset := u64_of_lt h0 h64
  simp only [E9Map.view, refactorView, LoaderMapping.mk.injEq]
  refine ⟨by rw [ha']; exact Int.tdiv_mul_cancel (Int.dvd_of_emod_eq_zero ha), rfl, rfl, rfl, rfl, ?_⟩
  have hs' : ((refactorCall r).record sp).size = r.size / PAGE_SIZE % 2 ^ 16 := rfl
  rw [ho', hs']
  simp only [refactorCall]
  congr 1 <;> unfold PAGE_SIZE at * <;> omega

/-- A refactor placed by step #2 from the page-aligned size `S`: its record maps the copy
step #2 made, when `file` holds what step #2 left from `S` on. -/
lemma placed_refactor_view {sp : AddressSpace} {S : Nat} {rs₀ : List Refactor} {r : Refactor}
    {data₂ file : Mem} (hbase : ∀ a : Int, a % PAGE_SIZE = 0 → sp.BASE_ADDRESS a % PAGE_SIZE = 0)
    (hS : S % PAGE_SIZE = 0) (hal : ∀ r ∈ rs₀, r.addr % PAGE_SIZE = 0 ∧ r.size % PAGE_SIZE = 0)
    (h64 : S + totalSize rs₀ < 2 ^ 64) (hr : r ∈ placeFrom S rs₀) (hfit : (refactorCall r).Fits sp)
    (hlt : r.size < 2 ^ 16 * PAGE_SIZE) (hcopy : ∀ i, S ≤ i → i < S + totalSize rs₀ → file i = data₂ i) :
    ((refactorCall r).record sp).view file = refactorView sp data₂ r := by
  obtain ⟨r₀, hr₀, hspan⟩ := mem_placeFrom hr
  simp only [Refactor.span, Prod.mk.injEq] at hspan
  obtain ⟨hlo, hhi⟩ := placeFrom_within hr
  have ha : r.addr % PAGE_SIZE = 0 := by
    rw [hspan.1]
    exact (hal r₀ hr₀).1
  have hsz : r.size % PAGE_SIZE = 0 := by
    rw [hspan.2.2]
    exact (hal r₀ hr₀).2
  rw [refactorCall_view hfit (hbase _ ha) hsz hlt (by omega)
    (placeFrom_aligned hS (fun r h => (hal r h).2) hr) (by omega)]
  simp only [refactorView, LoaderMapping.mk.injEq, true_and]
  exact Mem.bytesAt_congr fun k hk => hcopy _ (by omega) (by omega)

lemma placed_page_inside {S ms : Nat} {walk : List Page} (hw : ∀ p ∈ walk, p.1 % PAGE_SIZE = 0)
    {r : Refactor} (hr : r ∈ placeFrom S (clusterWalk ms walk)) {a : Int} (ha : a % PAGE_SIZE = 0)
    (hlo : r.addr ≤ a) (hhi : a < r.addr + r.size) : (a - r.addr).toNat + PAGE_SIZE ≤ r.size := by
  obtain ⟨r₀, hr₀, hspan⟩ := mem_placeFrom hr
  simp only [Refactor.span, Prod.mk.injEq] at hspan
  obtain ⟨hra, hrs, -⟩ := clusterWalk_pages ms hw r₀ hr₀
  rw [← hspan.1] at hra
  rw [← hspan.2.2] at hrs
  simp only [PAGE_SIZE_int] at *
  unfold PAGE_SIZE at *
  omega

lemma tableCalls_length (sp : AddressSpace) (pre : Bool) {ms : List Mapping} {offs : List Nat}
    (hlen : ms.length ≤ offs.length) :
    (tableCalls pre (ms.zip offs)).length = (intendedView sp pre ms).length := by
  have e := map_tableCalls (fun _ => ()) (fun _ _ _ => ()) pre hlen fun _ _ _ _ _ _ _ => rfl
  have e' : (intendedView sp pre ms).map (fun _ => ()) = ms.flatMap fun m =>
      (m.chain.filter fun node => node.preload == pre).flatMap fun node => node.bounds.map fun _ => () := by
    simp only [intendedView, List.map_flatMap, List.map_map]
  simpa only [List.length_map] using congrArg List.length (e.trans e'.symm)

/-- Array 1 of a run ends with the refactors: read as the loader reads it, the records after
those of the trampolines map, one per refactor and in order, the copy step #2 made, read and
execute, at the refactor's address. This holds for an address space whose `BASE_ADDRESS`
keeps page alignment, a region shorter than `2 ^ 31` bytes and refactors shorter than
`2 ^ 16` pages, the most the record's size field counts. -/
theorem emitElf_refactor_view {sp : AddressSpace} {opts : Options} {loader : Loader}
    {B : Binary} {mappings : List Mapping} {ms : Nat} {data' : Mem} {size : Nat} {offsets : List Nat}
    (hz : ∀ j, B.size ≤ j → B.data j = 0) (hs : ElfSites B)
    (hbase : ∀ a : Int, a % PAGE_SIZE = 0 → sp.BASE_ADDRESS a % PAGE_SIZE = 0)
    (h : emitElf sp opts loader B mappings ms = .ok (data', size, offsets)) (hsize : size < 2 ^ 64) :
    ∃ data₂ g rs, emitRefactoredPatch opts.option_loader_static B.original B.data
        (pageRoundUp B.size) ms B.Is = .ok (data₂, g, rs) ∧
      (size - configOffset B g mappings < 2 ^ 31 → (∀ r ∈ rs, r.size < 2 ^ 16 * PAGE_SIZE) →
        (tableView data' (configOffset B g mappings) 1).drop (intendedView sp false mappings).length =
          rs.map (refactorView sp data₂)) := by
  obtain ⟨data₂, g, rs, h₂, rfl, hfit, hmid, hco, htab⟩ := emitElf_tables hz hs h
  refine ⟨data₂, g, rs, h₂, fun hb hlt => ?_⟩
  obtain ⟨-, -, hg, -⟩ := emitRefactoredPatch_frame h₂
  obtain ⟨rs₀, rfl, hal⟩ := emitRefactoredPatch_placed h₂
  rw [totalSize_placeFrom] at hg
  subst hg
  have hcoS := le_pageRoundUp (pageRoundUp B.size + totalSize rs₀ + (blobs mappings).length)
  unfold configOffset at hco hmid
  have hlen := tableCalls_length sp false
    (le_of_eq (blobOffsets_length (pageRoundUp B.size + totalSize rs₀) mappings).symm)
  rw [(htab hb).2, postloadCalls, List.map_append, List.drop_left' (by rw [List.length_map, ← hlen]; rfl),
    List.map_map]
  refine List.map_congr_left fun r hr => placed_refactor_view hbase (pageRoundUp_mod _) hal (by omega) hr
    (hfit _ (List.mem_append_right _ (List.mem_append_right _ (List.mem_map_of_mem _ hr)))) (hlt r hr)
    fun i h1 h2 => ?_
  rw [hmid i h1 (by omega), Mem.write_of_lt h2]

lemma patchedPage_emitRefactoredPatch :
    emitRefactoredPatch lowBaseOptions.option_loader_static patchedPageImage.original
      patchedPageImage.data (pageRoundUp patchedPageImage.size) 0 patchedPageImage.Is =
        .ok (restoreAll patchedPageImage.original patchedPageImage.data PAGE_SIZE
          [⟨0x400000, 0x1000, 0, 0⟩], 0x1000, [⟨0x400000, 0x1000, 0, 0x1000⟩]) := by
  have hc : clusterWalk 0 [(0x400000, 0)] = [⟨0x400000, 0x1000, 0, 0⟩] := by decide
  rw [show pageRoundUp patchedPageImage.size = PAGE_SIZE from rfl,
    show lowBaseOptions.option_loader_static = false from rfl,
    emitRefactoredPatch_eq _ _ _ _ _ (by decide) patchedPage_assertions, patchedPage_walk, hc]
  rfl

lemma patchedPage_run : ∃ data',
    emitElf sampleSpace lowBaseOptions emptyLoader patchedPageImage [] 0 = .ok (data', 8300, []) := by
  obtain ⟨⟨data', size, offsets⟩, h, hr⟩ := exists_ok_of_toOption
    (show (emitElf sampleSpace lowBaseOptions emptyLoader patchedPageImage [] 0).toOption.map
      (fun r : Mem × Nat × List Nat => (r.2.1, r.2.2)) = some (8300, []) by
    simp only [emitElf, emitPatches, patchedPage_emitRefactoredPatch]
    decide)
  obtain ⟨rfl, rfl⟩ := Prod.mk.inj hr
  exact ⟨data', h⟩

lemma patchedPage_sites : ElfSites patchedPageImage where
  ehdr := by decide
  phdrs := ⟨by rintro p ⟨⟩; decide, nofun, nofun, nofun⟩
  dynamic := nofun

lemma patchedPage_zero : ∀ j, patchedPageImage.size ≤ j → patchedPageImage.data j = 0 :=
  fun j hj => if_neg (by change 4096 ≤ j at hj; omega)

/-- The one refactor record of the run maps the page after the image, read and execute, at
`0x400000`. -/
theorem patchedPage_refactor_view : ∃ data',
    emitElf sampleSpace lowBaseOptions emptyLoader patchedPageImage [] 0 = .ok (data', 8300, []) ∧
      tableView data' (configOffset patchedPageImage 0x1000 []) 1 =
        [refactorView sampleSpace (restoreAll patchedPageImage.original patchedPageImage.data PAGE_SIZE
          [⟨0x400000, 0x1000, 0, 0⟩]) ⟨0x400000, 0x1000, 0, 0x1000⟩] := by
  obtain ⟨data', h⟩ := patchedPage_run
  obtain ⟨data₂, g, rs, h₂, hv⟩ :=
    emitElf_refactor_view patchedPage_zero patchedPage_sites (fun _ h => h) h (by decide)
  obtain ⟨rfl, rfl, rfl⟩ := by
    simpa only [Except.ok.injEq, Prod.mk.injEq] using h₂.symm.trans patchedPage_emitRefactoredPatch
  exact ⟨data', h, hv (by decide) (by decide)⟩

/-- Inside one segment the loader maps every patched page back. For each page of the input
that differs from the original, step #1 made a refactor at or below the page's address, and
array 1 of a run has a record that maps, read and execute, at that refactor's address, the
page's patched bytes at the page's distance from it. Besides what `emitElf_refactor_view`
needs, refactoring is on, the dirty pages lie in one segment, and the page-rounded input is
shorter than `2 ^ 16` pages. -/
theorem emitElf_remaps_patched_pages {sp : AddressSpace} {opts : Options} {loader : Loader}
    {B : Binary} {mappings : List Mapping} {ms : Nat} {data' : Mem} {size : Nat} {offsets : List Nat}
    {δ : Int} (hz : ∀ j, B.size ≤ j → B.data j = 0) (hs : ElfSites B)
    (hbase : ∀ a : Int, a % PAGE_SIZE = 0 → sp.BASE_ADDRESS a % PAGE_SIZE = 0)
    (hstatic : opts.option_loader_static = false)
    (hw : SingleSegment (dirtyWalk B.original B.data B.Is (pageRoundUp B.size)) ms δ)
    (hS : pageRoundUp B.size < 2 ^ 16 * PAGE_SIZE)
    (h : emitElf sp opts loader B mappings ms = .ok (data', size, offsets)) (hsize : size < 2 ^ 64) :
    ∃ data₂ g rs, emitRefactoredPatch opts.option_loader_static B.original B.data
        (pageRoundUp B.size) ms B.Is = .ok (data₂, g, rs) ∧
      (size - configOffset B g mappings < 2 ^ 31 →
        ∀ p ∈ dirtyWalk B.original B.data B.Is (pageRoundUp B.size), ∃ r ∈ rs,
          ∃ v ∈ tableView data' (configOffset B g mappings) 1,
            v.MapsCodeAt sp r.addr p.1 (B.data.bytesAt p.2.toNat PAGE_SIZE)) := by
  obtain ⟨data₂, g, rs, h₂, rfl, hfit, hmid, hco, htab⟩ := emitElf_tables hz hs h
  refine ⟨data₂, g, rs, h₂, fun hb p hp => ?_⟩
  rw [hstatic] at h₂
  obtain ⟨hS4, hA⟩ := assertions_of_ok h₂
  rw [emitRefactoredPatch_eq _ _ _ _ _ hS4 hA] at h₂
  simp only [Except.ok.injEq, Prod.mk.injEq] at h₂
  obtain ⟨rfl, rfl, rfl⟩ := h₂
  -- the refactor whose addresses contain the page, and where its copy holds the page
  obtain ⟨r, hr, hlo, hhi⟩ := segment_covers hw hp
  have hcopy := segment_copies hw hp r hr hlo hhi
  obtain ⟨r₀, hr₀, hspan⟩ := mem_placeFrom hr
  simp only [Refactor.span, Prod.mk.injEq] at hspan
  have hin := (segment_sorted hw).1 r₀ hr₀
  have hal := @clusterWalk_pages ms (dirtyWalk B.original B.data B.Is (pageRoundUp B.size))
    fun q hq => (dirtyWalk_page hq).2.2.2
  have hcoS := le_pageRoundUp (pageRoundUp B.size +
    totalSize (clusterWalk ms (dirtyWalk B.original B.data B.Is (pageRoundUp B.size))) + (blobs mappings).length)
  unfold configOffset at hco hmid
  have hview : ((refactorCall r).record sp).view data' = refactorView sp (restoreAll B.original B.data
      (pageRoundUp B.size) (clusterWalk ms (dirtyWalk B.original B.data B.Is (pageRoundUp B.size)))) r :=
    placed_refactor_view hbase (pageRoundUp_mod _) (fun r h => ⟨(hal r h).1, (hal r h).2.1⟩)
    (by omega) hr (hfit _ (List.mem_append_right _ (List.mem_append_right _ (List.mem_map_of_mem _ hr))))
    (by omega) fun i h1 h2 => by rw [hmid i h1 (by omega), Mem.write_of_lt h2]
  have hinside := placed_page_inside (fun q hq => (dirtyWalk_page hq).2.2.2) hr
    (dirtyWalk_page hp).2.2.2 hlo hhi
  refine ⟨r, hr, _,
    (htab hb).2 ▸ List.mem_map_of_mem _ (List.mem_append_right _ (List.mem_map_of_mem _ hr)), ?_⟩
  rw [hview]
  refine ⟨rfl, rfl, rfl, rfl, rfl, hlo, ?_⟩
  rw [Mem.bytesAt_length, refactorView, ← Mem.bytesAt_drop_take rfl hinside]
  have h0 := patchedOffset_nonneg hr
  exact List.map_congr_left fun k hk => by
    rw [← hcopy k (List.mem_range.mp hk)]
    congr 1
    omega

/-- A two-page executable with the first byte of each page patched, one instruction per
page. -/
def pagePairImage : Binary where
  original := fun _ => 0
  data := fun i => if i = 0 ∨ i = PAGE_SIZE then 1 else 0
  size := 2 * PAGE_SIZE
  mode := .elfExe
  Is := ⟨[⟨0x400000, 0⟩, ⟨0x401000, 0x1000⟩], by decide⟩
  inits := []
  mmap := INTPTR_MIN
  elf := ⟨some 64, none, none, none⟩

lemma pagePair_offsets : pageOffsets (2 * PAGE_SIZE) = [0, PAGE_SIZE] := by decide

lemma pagePair_walk :
    dirtyWalk pagePairImage.original pagePairImage.data pagePairImage.Is (2 * PAGE_SIZE) =
      [(0x400000, 0), (0x401000, 0x1000)] := by
  have h0 : pageSame pagePairImage.original pagePairImage.data 0 = false :=
    pageSame_of_ne (k := 0) (by decide) (by decide)
  have h1 : pageSame pagePairImage.original pagePairImage.data PAGE_SIZE = false :=
    pageSame_of_ne (k := 0) (by decide) (by decide)
  simp only [dirtyWalk, pagePair_offsets, List.filterMap_cons, List.filterMap_nil,
    walkPage_dirty h0, walkPage_dirty h1]
  decide

lemma pagePair_assertions :
    AssertionsHold pagePairImage.original pagePairImage.data pagePairImage.Is (2 * PAGE_SIZE) := by
  intro o ho _
  simp only [pagePair_offsets, List.mem_cons, List.mem_singleton, List.not_mem_nil, or_false] at ho
  rcases ho with rfl | rfl
  · exact ⟨⟨0x400000, 0⟩, by decide, by decide⟩
  · exact ⟨⟨0x401000, 0x1000⟩, by decide, by decide⟩

lemma pagePair_emitRefactoredPatch :
    emitRefactoredPatch lowBaseOptions.option_loader_static pagePairImage.original
      pagePairImage.data (pageRoundUp pagePairImage.size) 0 pagePairImage.Is =
        .ok (restoreAll pagePairImage.original pagePairImage.data (2 * PAGE_SIZE)
          [⟨0x400000, 0x2000, 0, 0⟩], 0x2000, [⟨0x400000, 0x2000, 0, 0x2000⟩]) := by
  have hc : clusterWalk 0 [(0x400000, 0), (0x401000, 0x1000)] = [⟨0x400000, 0x2000, 0, 0⟩] := by
    decide
  rw [show pageRoundUp pagePairImage.size = 2 * PAGE_SIZE from rfl,
    show lowBaseOptions.option_loader_static = false from rfl,
    emitRefactoredPatch_eq _ _ _ _ _ (by decide) pagePair_assertions, pagePair_walk, hc]
  rfl

/-- The loader maps both patched pages of `pagePairImage` back from the one refactor at
`0x400000`: the first at distance `0`, the second at distance `0x1000`. -/
theorem pagePair_remapped : ∃ data',
    emitElf sampleSpace lowBaseOptions emptyLoader pagePairImage [] 0 = .ok (data', 16492, []) ∧
      ∀ p ∈ [((0x400000 : Int), (0 : Int)), (0x401000, 0x1000)],
        ∃ r ∈ [(⟨0x400000, 0x2000, 0, 0x2000⟩ : Refactor)],
          ∃ v ∈ tableView data' (configOffset pagePairImage 0x2000 []) 1,
            v.MapsCodeAt sampleSpace r.addr p.1 (pagePairImage.data.bytesAt p.2.toNat PAGE_SIZE) := by
  obtain ⟨⟨data', size, offsets⟩, h, hr⟩ := exists_ok_of_toOption
    (show (emitElf sampleSpace lowBaseOptions emptyLoader pagePairImage [] 0).toOption.map
      (fun r : Mem × Nat × List Nat => (r.2.1, r.2.2)) = some (16492, []) by
    simp only [emitElf, emitPatches, pagePair_emitRefactoredPatch]
    decide)
  obtain ⟨rfl, rfl⟩ := Prod.mk.inj hr
  have hw : SingleSegment (dirtyWalk pagePairImage.original pagePairImage.data pagePairImage.Is
      (pageRoundUp pagePairImage.size)) 0 0x400000 := by
    rw [show pageRoundUp pagePairImage.size = 2 * PAGE_SIZE from rfl, pagePair_walk]
    unfold SingleSegment
    decide
  have hz : ∀ j, pagePairImage.size ≤ j → pagePairImage.data j = 0 :=
    fun j hj => if_neg (by change 8192 ≤ j at hj; unfold PAGE_SIZE; omega)
  have hs : ElfSites pagePairImage := ⟨by decide, ⟨by rintro p ⟨⟩; decide, nofun, nofun, nofun⟩, nofun⟩
  obtain ⟨data₂, g, rs, h₂, hv⟩ := emitElf_remaps_patched_pages hz hs (fun _ h => h) rfl hw
    (by decide) h (by decide)
  obtain ⟨-, rfl, rfl⟩ := by
    simpa only [Except.ok.injEq, Prod.mk.injEq] using h₂.symm.trans pagePair_emitRefactoredPatch
  refine ⟨data', h, fun p hp => hv (by decide) p ?_⟩
  rwa [show pageRoundUp pagePairImage.size = 2 * PAGE_SIZE from rfl, pagePair_walk]

end E9Patch
