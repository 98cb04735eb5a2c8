import E9Patch.Header

/-!
# What `emitElf` changes in the input image

Below the page-rounded end of the input, the output of a run holds the input's bytes except
in three places: the original bytes over the ranges the refactors restore, the entry
address at the site step (5) rewires, and the loader's program header over the one step (6)
repurposes; the later writes take precedence (`emitElf_frame`). The site is `e_entry` for an
executable and, for a shared object, the `d_ptr` of the first `DT_INIT` entry of the
dynamic table ahead of any `DT_NULL` (`entrySite_dso`); the record's `entry` field gets the
value the site held.
-/

namespace E9Patch

/-! ### The `DT_INIT` search -/

lemma findInit_range' {data : Mem} {dyn i : Nat} (s n : Nat) :
    findInit data dyn (List.range' s n) = some i ↔
      s ≤ i ∧ i < s + n ∧ d_tag data dyn i = DT_INIT ∧
        ∀ j, s ≤ j → j < i → d_tag data dyn j ≠ DT_NULL ∧ d_tag data dyn j ≠ DT_INIT := by
  induction n generalizing s with
  | zero =>
    simp only [List.range'_zero, findInit, reduceCtorEq, false_iff, not_and]
    omega
  | succ n ih =>
    rw [List.range'_succ, findInit]
    split_ifs with h0 h1
    · simp only [reduceCtorEq, false_iff, not_and]
      intro hs _ hi hj
      rcases Nat.eq_or_lt_of_le hs with rfl | hlt
      · rw [h0] at hi
        exact absurd hi (by decide)
      · exact (hj s le_rfl hlt).1 h0
    · simp only [Option.some.injEq]
      constructor
      · rintro rfl
        exact ⟨le_rfl, by omega, h1, fun j h₁ h₂ => absurd h₂ (by omega)⟩
      · rintro ⟨hs, -, -, hj⟩
        rcases Nat.eq_or_lt_of_le hs with rfl | hlt
        · rfl
        · exact absurd h1 (hj s le_rfl hlt).2
    · rw [ih]
      constructor
      · rintro ⟨hs, hn, hi, hj⟩
        refine ⟨by omega, by omega, hi, fun j h₁ h₂ => ?_⟩
        rcases Nat.eq_or_lt_of_le h₁ with rfl | hlt
        · exact ⟨h0, h1⟩
        · exact hj j hlt h₂
      · rintro ⟨hs, hn, hi, hj⟩
        rcases Nat.eq_or_lt_of_le hs with rfl | hlt
        · exact absurd hi h1
        · exact ⟨hlt, by omega, hi, fun j h₁ h₂ => hj j (by omega) h₂⟩

/-- The search over the first `n` entries finds the first `DT_INIT` entry, provided no
`DT_NULL` entry comes before it. -/
lemma findInit_range {data : Mem} {dyn i : Nat} (n : Nat) :
    findInit data dyn (List.range n) = some i ↔
      i < n ∧ d_tag data dyn i = DT_INIT ∧
        ∀ j < i, d_tag data dyn j ≠ DT_NULL ∧ d_tag data dyn j ≠ DT_INIT := by
  rw [List.range_eq_range', findInit_range']
  simp only [Nat.zero_le, true_and, Nat.zero_add, true_implies]

lemma findInit_congr {data data' : Mem} {dyn : Nat} {is : List Nat}
    (h : ∀ j ∈ is, d_tag data dyn j = d_tag data' dyn j) : findInit data dyn is = findInit data' dyn is := by
  induction is with
  | nil => rfl
  | cons j is ih =>
    simp only [findInit, h j (List.mem_cons_self _ _), ih fun j' hj => h j' (List.mem_cons_of_mem _ hj)]

/-- For a shared object, the site is the `d_ptr` of the first `DT_INIT` among the first
`p_memsz / 16` entries of the recorded `PT_DYNAMIC` segment, with no `DT_NULL` before it. -/
lemma entrySite_dso {B : Binary} {data : Mem} {site : Nat} (hm : B.mode = .elfDso) :
    entrySite B data = some site ↔ ∃ p i, B.elf.phdrDynamic = some p ∧
      site = p_offset data p + i * DYN_SIZE + 8 ∧ i < p_memsz data p / DYN_SIZE ∧
      d_tag data (p_offset data p) i = DT_INIT ∧
      ∀ j < i, d_tag data (p_offset data p) j ≠ DT_NULL ∧ d_tag data (p_offset data p) j ≠ DT_INIT := by
  unfold entrySite
  rw [hm]
  simp only [Option.bind_eq_some, Option.map_eq_some', findInit_range]
  constructor
  · rintro ⟨p, hp, i, ⟨hi, ht, hj⟩, rfl⟩
    exact ⟨p, i, hp, rfl, hi, ht, hj⟩
  · rintro ⟨p, i, hp, rfl, hi, ht, hj⟩
    exact ⟨p, hp, i, ⟨hi, ht, hj⟩, rfl⟩

/-- The site depends only on the bytes of the input, as long as the dynamic program header
is the input's. -/
lemma entrySite_congr {B : Binary} (hs : ElfSites B) {data data' : Mem}
    (hd : B.mode = .elfDso → ∀ p, B.elf.phdrDynamic = some p →
      ∀ k < PHDR_SIZE, data (p + k) = B.data (p + k))
    (hdd : ∀ i < B.size, data' i = data i) : entrySite B data' = entrySite B data := by
  unfold entrySite
  cases hm : B.mode with
  | elfExe => rfl
  | elfDso =>
    replace hd := hd hm
    dsimp only
    cases hp : B.elf.phdrDynamic with
    | none => simp only [Option.none_bind]
    | some p =>
      have hpb := (hs.phdrs.2.2.2 p hp).2
      have hf : ∀ o, o + 8 ≤ PHDR_SIZE → data'.readLE (p + o) 8 = data.readLE (p + o) 8 ∧
          data.readLE (p + o) 8 = B.data.readLE (p + o) 8 := fun o ho =>
        ⟨Mem.readLE_congr fun k hk => hdd _ (by omega),
          Mem.readLE_congr fun k hk => by rw [Nat.add_assoc]; exact hd p hp _ (by omega)⟩
      have hdyn := (hs.dynamic hm p hp).2
      simp only [p_offset, p_memsz, (hf 8 (by decide)).2, (hf 40 (by decide)).2] at hdyn
      simp only [Option.some_bind, p_offset, p_memsz, (hf 8 (by decide)).1, (hf 40 (by decide)).1]
      rw [findInit_congr fun j hj => Mem.readLE_congr fun k hk => hdd _ ?_]
      have := List.mem_range.mp hj
      rw [(hf 8 (by decide)).2]
      rw [(hf 40 (by decide)).2] at this
      unfold DYN_SIZE at this ⊢
      omega

/-! ### Step (5) below the region -/

lemma Mem.write_apply (m : Mem) (pos : Nat) (bs : List UInt8) (i : Nat) :
    m.write pos bs i = if pos ≤ i ∧ i < pos + bs.length then bs.getD (i - pos) 0 else m i := rfl

lemma rewireAt_below (B : Binary) {co : Nat} (entry : Int) (site : Nat) (data : Mem) {i : Nat}
    (hi : i < co) : rewireAt B co entry site data i =
      if site ≤ i ∧ i < site + 8 then (leBytes 8 (u64 entry)).getD (i - site) 0 else data i := by
  have e : ((data.writeLE (co + Config.entry) 8 (data.readLE site 8)).writeLE site 8 (u64 entry)) i =
      if site ≤ i ∧ i < site + 8 then (leBytes 8 (u64 entry)).getD (i - site) 0 else data i := by
    rw [Mem.writeLE, Mem.write_apply, leBytes_length, Mem.writeLE, Mem.write_of_lt (by omega)]
  unfold rewireAt
  cases B.mode with
  | elfExe =>
    dsimp only
    rw [Mem.writeLE, Mem.write_of_lt (by unfold Config.flags; omega), e]
  | elfDso => exact e

lemma rewireAt_entry (B : Binary) {co : Nat} (entry : Int) {site : Nat} (data : Mem)
    (hs : site + 8 ≤ co) :
    (rewireAt B co entry site data).readLE (co + Config.entry) 8 = data.readLE site 8 := by
  have e : ((data.writeLE (co + Config.entry) 8 (data.readLE site 8)).writeLE site 8
      (u64 entry)).readLE (co + Config.entry) 8 = data.readLE site 8 := by
    rw [Mem.writeLE, Mem.readLE_write_of_disjoint (by simp only [leBytes_length]; omega),
      Mem.readLE_writeLE_self, Nat.mod_eq_of_lt (Mem.readLE_lt _ _ _)]
  have hd : co + Config.entry + 8 ≤ co + Config.flags ∨ co + Config.flags + 4 ≤ co + Config.entry := by
    unfold Config.entry Config.flags
    omega
  unfold rewireAt
  dsimp only
  cases B.mode with
  | elfExe =>
    dsimp only
    rw [Mem.writeLE, Mem.readLE_write_of_disjoint (by simpa only [leBytes_length] using hd)]
    exact e
  | elfDso => exact e

/-! ### The frame -/

lemma emitRefactoredPatch_dynamic {static : Bool} {B : Binary} {ms g : Nat} {data₂ : Mem}
    {rs : List Refactor} (hs : ElfSites B)
    (h₂ : emitRefactoredPatch static B.original B.data (pageRoundUp B.size) ms B.Is = .ok (data₂, g, rs)) :
    B.mode = .elfDso → ∀ q, B.elf.phdrDynamic = some q →
      ∀ k < PHDR_SIZE, data₂ (q + k) = B.data (q + k) := by
  intro hm q hq k hk
  have := (hs.phdrs.2.2.2 q hq).2
  have := le_pageRoundUp B.size
  rw [(emitRefactoredPatch_frame h₂).1 _ (by omega)]
  split_ifs
  · exact (hs.dynamic hm q hq).1 k hk
  · rfl

/-- Steps (3) and (4) write from the end of the rounded input on, so step (5) looks for its
site where step #1 left it. -/
lemma entrySite_after_loader {sp : AddressSpace} {opts : Options} {loader : Loader}
    {B : Binary} {mappings : List Mapping} {ms g size : Nat} {data₂ data₄ : Mem} {rs : List Refactor}
    {entry : Int} (hz : ∀ j, B.size ≤ j → B.data j = 0) (hs : ElfSites B)
    (h₂ : emitRefactoredPatch opts.option_loader_static B.original B.data (pageRoundUp B.size) ms
      B.Is = .ok (data₂, g, rs))
    (hL : emitLoader sp opts loader B (mappings.zip (blobOffsets (pageRoundUp B.size + g) mappings))
      rs (pageRoundUp (pageRoundUp B.size + g + (blobs mappings).length))
        (data₂.write (pageRoundUp B.size + g) (blobs mappings)) = .ok (data₄, size, entry)) :
    entrySite B (storeDynamic B (pageRoundUp (pageRoundUp B.size + g + (blobs mappings).length)) data₄) =
      entrySite B data₂ := by
  have hS := le_pageRoundUp B.size
  have hco := le_pageRoundUp (pageRoundUp B.size + g + (blobs mappings).length)
  obtain ⟨rfl, -, -⟩ := emitLoader_region (fun j hj => by
    rw [emitPatches_above h₂ hj, hz j (by omega)]) hL
  refine entrySite_congr hs (emitRefactoredPatch_dynamic hs h₂) fun i hi => ?_
  rw [storeDynamic_of_not_mem _ _ _ (by omega), Mem.write_of_lt (by omega), Mem.write_of_lt (by omega)]

/-- A run of `emitElf` over an input that is zero past its end and whose headers lie inside
it. Below the page-rounded input size, the output is the repurposed program header over its
56 bytes, else the entry address over the 8 bytes of the site, else the original image over
the ranges the refactors restore, else the input. The site is found on the buffer of step
(2), and the record's `entry` field gets the value it held there. -/
theorem emitElf_frame {sp : AddressSpace} {opts : Options} {loader : Loader}
    {B : Binary} {mappings : List Mapping} {ms : Nat} {data' : Mem} {size : Nat}
    {offsets : List Nat} (hz : ∀ j, B.size ≤ j → B.data j = 0) (hs : ElfSites B)
    (h : emitElf sp opts loader B mappings ms = .ok (data', size, offsets)) :
    ∃ data₂ g rs entry site p, emitRefactoredPatch opts.option_loader_static B.original B.data
        (pageRoundUp B.size) ms B.Is = .ok (data₂, g, rs) ∧
      entry = toIntptr (opts.option_loader_base + (shimOffset sp loader B (mappings.zip offsets) rs : Nat)) ∧
      entrySite B data₂ = some site ∧ site + 8 ≤ B.size ∧
      (selectPhdr opts.option_loader_phdr B.elf).1 = some p ∧ p + PHDR_SIZE ≤ B.size ∧
      (∀ i < pageRoundUp B.size, data' i =
        if p ≤ i ∧ i < p + PHDR_SIZE then
          (loaderPhdr (configOffset B g mappings) opts.option_loader_base
            (size - configOffset B g mappings)).getD (i - p) 0
        else if site ≤ i ∧ i < site + 8 then (leBytes 8 (u64 entry)).getD (i - site) 0
        else if ∃ r ∈ rs, r.Covers i then B.original i else B.data i) ∧
      data'.readLE (configOffset B g mappings + Config.entry) 8 = data₂.readLE site 8 := by
  obtain ⟨data₃, size₃, rs, data₄, entry, data₅, hP, hL, hR, hH⟩ := emitElf_eq_ok h
  obtain ⟨data₂, g, h₂, rfl, rfl, rfl⟩ := emitPatches_eq_ok hP
  obtain ⟨site, hsite, rfl⟩ := rewireEntry_eq_ok hR
  have hsite₂ : entrySite B data₂ = some site := (entrySite_after_loader hz hs h₂ hL).symm.trans hsite
  have hsite' := entrySite_le hs (emitRefactoredPatch_dynamic hs h₂) hsite₂
  have hf := (emitRefactoredPatch_frame h₂).1
  have hS := le_pageRoundUp B.size
  have hco := le_pageRoundUp (pageRoundUp B.size + g + (blobs mappings).length)
  have hco' : configOffset B g mappings = pageRoundUp (pageRoundUp B.size + g + (blobs mappings).length) :=
    rfl
  obtain ⟨rfl, rfl, he⟩ := emitLoader_region (fun j hj => by rw [emitPatches_above h₂ hj, hz j (by omega)]) hL
  obtain ⟨p, hp, rfl⟩ := repurposePhdr_eq_ok hH
  generalize pageRoundUp (pageRoundUp B.size + g + (blobs mappings).length) = C at *
  have hlow : ∀ i < pageRoundUp B.size, storeDynamic B C
      ((data₂.write (pageRoundUp B.size + g) (blobs mappings)).write C
        (loaderRegion sp opts loader B (mappings.zip (blobOffsets (pageRoundUp B.size + g) mappings))
          rs)) i = data₂ i := fun i hi => by
    rw [storeDynamic_of_not_mem _ _ _ (by omega), Mem.write_of_lt (by omega), Mem.write_of_lt (by omega)]
  have hp' := (selectPhdr_all hs.phdrs hp).2
  refine ⟨data₂, g, rs, _, site, p, h₂, he, hsite₂, hsite', hp, hp', fun i hi => ?_, ?_⟩
  · rw [hco', Mem.write_apply, loaderPhdr_length, rewireAt_below _ _ _ _ (by omega), hlow i hi, hf i hi]
  · rw [hco', Mem.readLE_write_of_disjoint (by simp only [loaderPhdr_length]; omega),
      rewireAt_entry _ _ _ (by omega)]
    exact Mem.readLE_congr fun k hk => hlow _ (by omega)

/-- On the sample executable, patched with static loading, the first page of the output is
zero but for `e_entry` and the repurposed `PT_NOTE` header. -/
theorem sample_frame : ∃ data',
    emitElf sampleSpace sampleOptions sampleLoader sampleImage [] 0 = .ok (data', 4202, []) ∧
      ∀ i < PAGE_SIZE, ¬(64 ≤ i ∧ i < 64 + PHDR_SIZE) → ¬(24 ≤ i ∧ i < 24 + 8) → data' i = 0 := by
  obtain ⟨⟨data', size, offsets⟩, h, hr⟩ := exists_ok_of_toOption
    (show (emitElf sampleSpace sampleOptions sampleLoader sampleImage [] 0).toOption.map
      (fun r : Mem × Nat × List Nat => (r.2.1, r.2.2)) = some (4202, []) by decide)
  obtain ⟨rfl, rfl⟩ := Prod.mk.inj hr
  obtain ⟨data₂, g, rs, entry, site, p, h₂, -, hsite, -, hp, -, hframe, -⟩ :=
    emitElf_frame (fun _ _ => rfl) sampleImage_sites h
  obtain ⟨-, -, rfl⟩ : sampleImage.data = data₂ ∧ 0 = g ∧ [] = rs := by
    simpa only [Except.ok.injEq, Prod.mk.injEq] using
      (show emitRefactoredPatch true sampleImage.original sampleImage.data PAGE_SIZE 0 sampleImage.Is =
        .ok (sampleImage.data, 0, []) from rfl).symm.trans h₂
  obtain rfl : 24 = site := Option.some.inj hsite
  obtain rfl : 64 = p := Option.some.inj hp
  refine ⟨data', h, fun i hi h64 h24 => ?_⟩
  rw [hframe i hi, if_neg h64, if_neg h24, if_neg (by simp)]
  rfl

end E9Patch
