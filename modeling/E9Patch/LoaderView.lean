import E9Patch.Tables
import E9Patch.Errors

/-!
# What the loader maps

The loader reads each record of the two mapping tables as the field comments of
`struct e9_map_s` say: `size` pages of the output file from page `offset`, mapped at page
`addr`, relative to the load base unless `abs`, with the protection bits `r`, `w`, `x`
(`E9Map.view`). For a mapping set whose bounds are whole pages of the blobs, the tables of a
run map exactly what the mapping set asks for: at each bound of each chain node, in the
order of the mappings, the bytes of the head's flattened image the bound covers
(`emitElf_loader_view`). The merged nodes of a chain map their head's blob at their own
addresses.
-/

namespace E9Patch

/-- Steps (4) to (6) leave the refactor copies and the blobs alone: from the page-rounded input
size up to `config_offset`, the output holds what step (3) left there. -/
lemma emitElf_below_region {sp : AddressSpace} {opts : Options} {loader : Loader}
    {B : Binary} {mappings : List Mapping} {ms : Nat} {data' : Mem} {size : Nat} {offsets : List Nat}
    (hz : ∀ j, B.size ≤ j → B.data j = 0) (hs : ElfSites B)
    (h : emitElf sp opts loader B mappings ms = .ok (data', size, offsets)) :
    ∃ data₂ g rs, emitRefactoredPatch opts.option_loader_static B.original B.data
        (pageRoundUp B.size) ms B.Is = .ok (data₂, g, rs) ∧
      offsets = blobOffsets (pageRoundUp B.size + g) mappings ∧
      emitLoader sp opts loader B (mappings.zip offsets) rs (configOffset B g mappings)
        (data₂.write (pageRoundUp B.size + g) (blobs mappings)) =
          .ok (data₂.write (pageRoundUp B.size + g) (blobs mappings) |>.write (configOffset B g mappings)
            (loaderRegion sp opts loader B (mappings.zip offsets) rs), size,
            toIntptr (opts.option_loader_base + (shimOffset sp loader B (mappings.zip offsets) rs : Nat))) ∧
      ∀ i, pageRoundUp B.size ≤ i → i < configOffset B g mappings →
        data' i = (data₂.write (pageRoundUp B.size + g) (blobs mappings)) i := by
  obtain ⟨data₃, size₃, rs, data₄, entry, data₅, hP, hL, hR, hH⟩ := emitElf_eq_ok h
  obtain ⟨data₂, g, h₂, rfl, rfl, rfl⟩ := emitPatches_eq_ok hP
  obtain ⟨site, hsite, rfl⟩ := rewireEntry_eq_ok hR
  have hsite' := entrySite_le hs (emitRefactoredPatch_dynamic hs h₂)
    ((entrySite_after_loader hz hs h₂ hL).symm.trans hsite)
  have hS := le_pageRoundUp B.size
  have hco := le_pageRoundUp (pageRoundUp B.size + g + (blobs mappings).length)
  have hL' := hL
  obtain ⟨rfl, rfl, rfl⟩ := emitLoader_region (fun j hj => by
    rw [emitPatches_above h₂ hj, hz j (by omega)]) hL
  obtain ⟨p, hp, rfl⟩ := repurposePhdr_eq_ok hH
  have hp' := (selectPhdr_all hs.phdrs hp).2
  refine ⟨data₂, g, rs, h₂, rfl, hL', fun i hi hi' => ?_⟩
  unfold configOffset at hi'
  rw [Mem.write_of_not_mem (by rw [loaderPhdr_length]; omega),
    rewireAt_of_not_mem _ _ _ _ _ (by omega) (by omega) (by omega),
    storeDynamic_of_not_mem _ _ _ (by omega), Mem.write_of_lt hi']

/-- Modelled from the field comments of `struct e9_map_s`: one mapping as the loader makes it,
its address, whether the address is absolute, its protection and the bytes it maps. -/
structure LoaderMapping where
  addr : Int
  abs : Bool
  r : Bool
  w : Bool
  x : Bool
  bytes : List UInt8
  deriving DecidableEq, Repr

/-- Modelled from the field comments of `struct e9_map_s`: the record `e` maps `size` pages of
`file` from page `offset` at page `addr`. -/
def E9Map.view (file : Mem) (e : E9Map) : LoaderMapping :=
  ⟨e.addr * PAGE_SIZE, e.abs, e.r, e.w, e.x, file.bytesAt (e.offset * PAGE_SIZE) (e.size * PAGE_SIZE)⟩

/-- Table `i` of the config record at `co`, found through `maps[i]` and `num_maps[i]`, as the
loader maps it from `file`. -/
def tableView (file : Mem) (co i : Nat) : List LoaderMapping :=
  (List.range (file.readLE (co + Config.numMaps + 4 * i) 4)).map fun k =>
    (E9Map.read file (co + file.readLE (co + Config.maps + 4 * i) 4 + E9_MAP_SIZE * k)).view file

/-- What the bound `b` of the chain node `node` of `m` asks for: the bytes of the head's
flattened image the bound covers, at the node's address for the bound. -/
def boundView (sp : AddressSpace) (m : Mapping) (node : MapNode) (b : Int × Int) : LoaderMapping :=
  ⟨sp.BASE_ADDRESS (toIntptr (node.base + b.1)), sp.IS_ABSOLUTE (toIntptr (node.base + b.1)),
    node.prot &&& PROT_READ != 0, node.prot &&& PROT_WRITE != 0, node.prot &&& PROT_EXEC != 0,
    (m.image.drop b.1.toNat).take (b.2 - b.1).toNat⟩

/-- What the nodes whose preload flag is `preload` ask for, mapping by mapping, each chain
from its head, each node's bounds in order. -/
def intendedView (sp : AddressSpace) (preload : Bool) (mappings : List Mapping) : List LoaderMapping :=
  mappings.flatMap fun m => (m.chain.filter fun node => node.preload == preload).flatMap fun node =>
    node.bounds.map (boundView sp m node)

/-- What the table passes rely on from `getVirtualBounds`, defined outside this source, for
one bound: a page-aligned part of the blob, of fewer than `2 ^ 16` pages (the record keeps 16
bits of the page count), at a page-aligned address. -/
structure BoundOk (sp : AddressSpace) (m : Mapping) (node : MapNode) (b : Int × Int) : Prop where
  lb_nonneg : 0 ≤ b.1
  lb_le : b.1 ≤ b.2
  ub_le : b.2 ≤ m.size
  lb_mod : b.1 % PAGE_SIZE = 0
  ub_mod : b.2 % PAGE_SIZE = 0
  pages_lt : b.2 - b.1 < 2 ^ 16 * PAGE_SIZE
  addr_mod : sp.BASE_ADDRESS (toIntptr (node.base + b.1)) % PAGE_SIZE = 0

structure Mapping.PageBounds (sp : AddressSpace) (m : Mapping) : Prop where
  size_mod : m.size % PAGE_SIZE = 0
  bound_ok : ∀ node ∈ m.chain, ∀ b ∈ node.bounds, BoundOk sp m node b

/-- The record of a bound call that passed the checks maps what the bound asks for, when the
head's blob is in the file at its page-aligned offset. -/
lemma boundCall_view {sp : AddressSpace} {m : Mapping} {node : MapNode} {b : Int × Int} {off : Nat}
    {file : Mem} (hb : BoundOk sp m node b) (hfit : (boundCall node off b).Fits sp)
    (hoff : off % PAGE_SIZE = 0) (hlt : off + m.size < 2 ^ 64) (himg : file.bytesAt off m.size = m.image) :
    ((boundCall node off b).record sp).view file = boundView sp m node b := by
  obtain ⟨ha, ho⟩ := MapCall.record_of_fits hfit
  obtain ⟨h0, h1, h2, h3, h4, h5, h6⟩ := hb
  have hP := PAGE_SIZE_int
  have hlen : ((boundCall node off b).len : Int) = b.2 - b.1 := u64_of_lt (by omega) (by omega)
  have hoffs : (u64 (boundCall node off b).offset : Int) = off + b.1 := by
    simp only [boundCall, u64, toIntptr]
    rw [show ((2 : Int) ^ 64) = ((2 ^ 64 : Nat) : Int) by norm_num, Int.bmod_emod]
    exact u64_of_lt (by omega) (by omega)
  simp only [E9Map.view, boundView, LoaderMapping.mk.injEq]
  refine ⟨by rw [ha]; exact Int.tdiv_mul_cancel (Int.dvd_of_emod_eq_zero h6), rfl, rfl, rfl, rfl, ?_⟩
  have hsz : ((boundCall node off b).record sp).size = (boundCall node off b).len / PAGE_SIZE % 2 ^ 16 := rfl
  rw [ho, hsz]
  have e1 : u64 (boundCall node off b).offset / PAGE_SIZE * PAGE_SIZE = off + b.1.toNat := by
    unfold PAGE_SIZE at *
    omega
  have e2 : (boundCall node off b).len / PAGE_SIZE % 2 ^ 16 * PAGE_SIZE = (b.2 - b.1).toNat := by
    unfold PAGE_SIZE at *
    omega
  rw [e1, e2]
  exact Mem.bytesAt_drop_take himg (by omega)

lemma map_tableCalls {β : Type} (F : MapCall → β) (G : Mapping → MapNode → Int × Int → β) (pre : Bool)
    {ms : List Mapping} {offs : List Nat} (hlen : ms.length ≤ offs.length)
    (hFG : ∀ mo ∈ ms.zip offs, ∀ node ∈ mo.1.chain, node.preload = pre → ∀ b ∈ node.bounds,
      F (boundCall node mo.2 b) = G mo.1 node b) :
    (tableCalls pre (ms.zip offs)).map F = ms.flatMap fun m =>
      (m.chain.filter fun node => node.preload == pre).flatMap fun node => node.bounds.map (G m node) := by
  conv_rhs => rw [← List.map_fst_zip ms offs hlen, List.flatMap_map]
  simp only [tableCalls, List.map_flatMap, List.map_map]
  refine List.flatMap_congr fun mo hmo => List.flatMap_congr fun node hnode => ?_
  obtain ⟨hnode, hp⟩ := List.mem_filter.mp hnode
  exact List.map_congr_left fun b hb => hFG mo hmo node hnode (by simpa using hp) b hb

lemma boundCall_mem_tableCalls {pre : Bool} {heads : List (Mapping × Nat)} {mo : Mapping × Nat}
    (hmo : mo ∈ heads) {node : MapNode} (hnode : node ∈ mo.1.chain) (hp : node.preload = pre)
    {b : Int × Int} (hb : b ∈ node.bounds) : boundCall node mo.2 b ∈ tableCalls pre heads := by
  simp only [tableCalls, List.mem_flatMap, List.mem_filter, List.mem_map]
  exact ⟨mo, hmo, node, ⟨hnode, by simp [hp]⟩, b, hb, rfl⟩

lemma map_range_eq_map {α β : Type} {l : List α} {f : Nat → β} (g : α → β)
    (h : ∀ k (hk : k < l.length), f k = g l[k]) : (List.range l.length).map f = l.map g :=
  List.ext_getElem (by simp) fun k h1 _ => by
    simp only [List.getElem_map, List.getElem_range]
    exact h k (by simpa using h1)

/-- The tables of a run as the loader reads them: when the region is shorter than `2 ^ 31`
bytes, so that its counters and table offsets fit their 32 bits, array 0 and array 1 are the
records of the calls of the table passes, in order. The records passed the checks, and the
output holds what step (3) left from the page-rounded input size up to `config_offset`. -/
lemma emitElf_tables {sp : AddressSpace} {opts : Options} {loader : Loader}
    {B : Binary} {mappings : List Mapping} {ms : Nat} {data' : Mem} {size : Nat} {offsets : List Nat}
    (hz : ∀ j, B.size ≤ j → B.data j = 0) (hs : ElfSites B)
    (h : emitElf sp opts loader B mappings ms = .ok (data', size, offsets)) :
    ∃ data₂ g rs, emitRefactoredPatch opts.option_loader_static B.original B.data
        (pageRoundUp B.size) ms B.Is = .ok (data₂, g, rs) ∧
      offsets = blobOffsets (pageRoundUp B.size + g) mappings ∧
      (∀ c ∈ tableCalls true (placedHeads B g mappings) ++ postloadCalls (placedHeads B g mappings) rs,
        c.Fits sp) ∧
      (∀ i, pageRoundUp B.size ≤ i → i < configOffset B g mappings →
        data' i = (data₂.write (pageRoundUp B.size + g) (blobs mappings)) i) ∧
      configOffset B g mappings ≤ size ∧
      (size - configOffset B g mappings < 2 ^ 31 →
        tableView data' (configOffset B g mappings) 0 =
          (tableCalls true (placedHeads B g mappings)).map (fun c => (c.record sp).view data') ∧
        tableView data' (configOffset B g mappings) 1 =
          (postloadCalls (placedHeads B g mappings) rs).map (fun c => (c.record sp).view data')) := by
  obtain ⟨data₂, g, rs, h₂, hoff, hL, hmid⟩ := emitElf_below_region hz hs h
  obtain ⟨data₂', g', rs', -, h₂', -, -, -, -, hsz, hout, -⟩ := emitElf_output hz hs h
  obtain ⟨rfl, rfl, rfl⟩ : data₂ = data₂' ∧ g = g' ∧ rs = rs' := by
    simpa only [Except.ok.injEq, Prod.mk.injEq] using h₂.symm.trans h₂'
  subst hoff
  unfold placedHeads
  have hlen := loaderRegion_length sp opts loader B
    (mappings.zip (blobOffsets (pageRoundUp B.size + g) mappings)) rs
  have hsh := shimOffset_eq sp loader B (mappings.zip (blobOffsets (pageRoundUp B.size + g) mappings)) rs
  refine ⟨data₂, g, rs, h₂, rfl, (emitLoader_calls hL).1, hmid, by omega, fun hb => ?_⟩
  have hR : HoldsRegion data' (configOffset B g mappings) _ := hout
  obtain ⟨-, -, fm0, fk0, fm1, fk1, -⟩ := regionFields sp opts loader B _ rs hR
  obtain ⟨hr0, hr1⟩ := regionRecords sp opts loader B _ rs hR
  have b0 : CONFIG_SIZE + loader.CONFIG_ELF_SIZE + 8 * B.inits.length +
      E9_MAP_SIZE * (tableCalls true (mappings.zip (blobOffsets (pageRoundUp B.size + g) mappings))).length +
      E9_MAP_SIZE * (postloadCalls (mappings.zip (blobOffsets (pageRoundUp B.size + g) mappings)) rs).length
        < 2 ^ 31 := by
    omega
  unfold E9_MAP_SIZE at b0
  simp (disch := omega) only [Nat.mod_eq_of_lt] at fm0 fk0 fm1 fk1
  refine ⟨?_, ?_⟩
  · rw [tableView, Nat.mul_zero, Nat.add_zero, Nat.add_zero, fk0, fm0]
    exact map_range_eq_map _ fun k hk => by rw [Nat.add_assoc, hr0 k hk]
  · rw [tableView, Nat.mul_one, fk1, fm1]
    exact map_range_eq_map _ fun k hk => by rw [Nat.add_assoc, hr1 k hk]

/-- For a mapping set whose bounds are whole pages of the blobs, every record of a run's
tables maps what the mapping set asks for: array 0 is the preloaded nodes' bounds, and array 1
starts with the other nodes' bounds, each mapped at its address with the bytes of its head's
image. The counters and table offsets are 32 bits, so this holds of regions shorter than
`2 ^ 31` bytes; the file is smaller than `2 ^ 64` bytes, as a `size_t` has it. -/
theorem emitElf_loader_view {sp : AddressSpace} {opts : Options} {loader : Loader}
    {B : Binary} {mappings : List Mapping} {ms : Nat} {data' : Mem} {size : Nat} {offsets : List Nat}
    (hz : ∀ j, B.size ≤ j → B.data j = 0) (hs : ElfSites B) (hm : ∀ m ∈ mappings, m.PageBounds sp)
    (h : emitElf sp opts loader B mappings ms = .ok (data', size, offsets)) (hsize : size < 2 ^ 64) :
    ∃ data₂ g rs, emitRefactoredPatch opts.option_loader_static B.original B.data
        (pageRoundUp B.size) ms B.Is = .ok (data₂, g, rs) ∧
      (size - configOffset B g mappings < 2 ^ 31 →
        tableView data' (configOffset B g mappings) 0 = intendedView sp true mappings ∧
        (tableView data' (configOffset B g mappings) 1).take (intendedView sp false mappings).length =
          intendedView sp false mappings) := by
  obtain ⟨data₂, g, rs, h₂, rfl, hfit, hmid, hco, htab⟩ := emitElf_tables hz hs h
  refine ⟨data₂, g, rs, h₂, fun hb => ?_⟩
  obtain ⟨-, -, hg, hrs⟩ := emitRefactoredPatch_frame h₂
  have hal : (pageRoundUp B.size + g) % PAGE_SIZE = 0 := by
    rw [Nat.add_mod, pageRoundUp_mod, hg, totalSize_mod hrs, Nat.add_zero, Nat.zero_mod]
  obtain ⟨-, hlay⟩ := blobOffsets_layout (pageRoundUp B.size + g) mappings
  have hview : ∀ mo ∈ placedHeads B g mappings, ∀ node ∈ mo.1.chain, ∀ b ∈ node.bounds,
      boundCall node mo.2 b ∈ tableCalls true (placedHeads B g mappings) ++
        postloadCalls (placedHeads B g mappings) rs →
      ((boundCall node mo.2 b).record sp).view data' = boundView sp mo.1 node b := by
    intro mo hmo node hnode b hb hc
    have hm' := hm _ (List.of_mem_zip hmo).1
    have hx := hlay mo hmo
    unfold configOffset at hco hmid
    rw [blobs_length] at hco hmid
    have := le_pageRoundUp (pageRoundUp B.size + g + (mappings.map Mapping.size).sum)
    refine boundCall_view (hm'.bound_ok node hnode b hb) (hfit _ hc)
      (blobOffsets_aligned hal (fun m hm'' => (hm m hm'').size_mod) _ (List.of_mem_zip hmo).2)
      (by omega) ?_
    rw [← bytesAt_write_blobs data₂ _ mappings mo hmo]
    exact Mem.bytesAt_congr fun k hk => hmid _ (by omega) (by omega)
  obtain ⟨t0, t1⟩ := htab hb
  refine ⟨?_, ?_⟩
  · rw [t0]
    exact map_tableCalls _ _ true (by simp) fun mo hmo node hnode hp b hb =>
      hview mo hmo node hnode b hb (List.mem_append_left _ (boundCall_mem_tableCalls hmo hnode hp hb))
  · have e := map_tableCalls (fun c => (c.record sp).view data') (boundView sp) false (by simp)
      fun mo hmo node hnode hp b hb => hview mo hmo node hnode b hb (List.mem_append_right _
        (List.mem_append_left _ (boundCall_mem_tableCalls hmo hnode hp hb)))
    rw [t1, postloadCalls, List.map_append, placedHeads, e]
    exact List.take_left _ _

/-- A one-page blob of `ret` instructions, preloaded read-execute at `0x500000`, with a
read-only alias at `0x600000` mapped after it. -/
def pageMapping : Mapping where
  head := ⟨0x500000, 5, true, [(0, 0x1000)]⟩
  merged := [⟨0x600000, 1, false, [(0, 0x1000)]⟩]
  size := PAGE_SIZE
  image := List.replicate PAGE_SIZE 0xC3
  image_length := List.length_replicate _ _

lemma pageMapping_run : ∃ data',
    emitElf sampleSpace sampleOptions sampleLoader sampleImage [pageMapping] 0 = .ok (data', 8322, [4096]) := by
  obtain ⟨⟨data', size, offsets⟩, h, hr⟩ := exists_ok_of_toOption
    (show (emitElf sampleSpace sampleOptions sampleLoader sampleImage [pageMapping] 0).toOption.map
      (fun r : Mem × Nat × List Nat => (r.2.1, r.2.2)) = some (8322, [4096]) by decide)
  obtain ⟨rfl, rfl⟩ := Prod.mk.inj hr
  exact ⟨data', h⟩

lemma pageMapping_bounds : pageMapping.PageBounds sampleSpace where
  size_mod := rfl
  bound_ok := by
    simp only [pageMapping, Mapping.chain, List.mem_cons, List.mem_singleton, List.not_mem_nil,
      or_false, forall_eq_or_imp, forall_eq]
    constructor <;> constructor <;> decide

theorem pageMapping_loader_view : ∃ data',
    emitElf sampleSpace sampleOptions sampleLoader sampleImage [pageMapping] 0 = .ok (data', 8322, [4096]) ∧
      tableView data' (configOffset sampleImage 0 [pageMapping]) 0 =
        intendedView sampleSpace true [pageMapping] ∧
      (tableView data' (configOffset sampleImage 0 [pageMapping]) 1).take (intendedView sampleSpace false [pageMapping]).length =
        intendedView sampleSpace false [pageMapping] := by
  obtain ⟨data', h⟩ := pageMapping_run
  obtain ⟨data₂, g, rs, h₂, hv⟩ := emitElf_loader_view (fun _ _ => rfl) sampleImage_sites
    (by simpa only [List.mem_singleton, forall_eq] using pageMapping_bounds) h (by decide)
  obtain ⟨-, rfl, rfl⟩ : sampleImage.data = data₂ ∧ 0 = g ∧ [] = rs := by
    simpa only [Except.ok.injEq, Prod.mk.injEq] using
      (show emitRefactoredPatch true sampleImage.original sampleImage.data PAGE_SIZE 0 sampleImage.Is =
        .ok (sampleImage.data, 0, []) from rfl).symm.trans h₂
  exact ⟨data', h, hv (by simp only [configOffset, blobs_length]; decide)⟩

end E9Patch
