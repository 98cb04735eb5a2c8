import E9Patch.Region
import E9Patch.Reinstall

/-!
# The stages of `emitElf`

`emitElf` runs its steps over one buffer. This module says what each of them writes, for
every run that raises no error: the refactor pass puts original bytes back inside its
ranges below the page-rounded size and writes nothing else below it, nor anything at or
after the end of its copies (`emitRefactoredPatch_frame`); the trampolines are the heads'
blobs end to end (`emitTrampolines_eq`); step (5) stores three fields of the record and the
entry address at one site (`rewireEntry_eq_ok`); step (6) stores one program header
(`repurposePhdr_eq_ok`). `emitElf_eq_ok` splits a run into these stages.
-/

namespace E9Patch

/-! ### Step (3) -/

def blobs (ms : List Mapping) : List UInt8 := ms.flatMap Mapping.image

/-- The offsets `mapping->offset` the heads get, from `size` on. -/
def blobOffsets (size : Nat) : List Mapping → List Nat
  | [] => []
  | m :: ms => size :: blobOffsets (size + m.size) ms

@[simp] lemma blobOffsets_length (s : Nat) (ms : List Mapping) : (blobOffsets s ms).length = ms.length := by
  induction ms generalizing s with
  | nil => rfl
  | cons m ms ih => simp [blobOffsets, ih]

@[simp] lemma blobs_length (ms : List Mapping) : (blobs ms).length = (ms.map Mapping.size).sum := by
  induction ms with
  | nil => rfl
  | cons m ms ih =>
    simp only [blobs, List.flatMap_cons, List.length_append, m.image_length, List.map_cons,
      List.sum_cons] at ih ⊢
    rw [ih]

lemma emitTrampolines_eq (data : Mem) (size : Nat) (ms : List Mapping) :
    emitTrampolines data size ms =
      (data.write size (blobs ms), size + (blobs ms).length, blobOffsets size ms) := by
  induction ms generalizing data size with
  | nil => simp [emitTrampolines, blobs, blobOffsets]
  | cons m ms ih =>
    have e := Mem.write_append data size m.image (blobs ms)
    rw [m.image_length] at e
    rw [emitTrampolines, ih, e]
    simp [blobs, blobOffsets, m.image_length, Nat.add_assoc]

/-! ### Step #1 keeps its refactors on pages of the walk -/

/-- What the clustering loop keeps: a started cluster and every refactor begin at a
page-aligned address and at the file offset of a page of the walk, and span whole pages. -/
def ClusterInv (walk : List Page) (s : Cluster × List Refactor) : Prop :=
  (0 ≤ s.1.currAddr → s.1.currAddr % PAGE_SIZE = 0 ∧ s.1.currSize % PAGE_SIZE = 0 ∧
      ∃ p ∈ walk, s.1.currOffset = p.2) ∧
    ∀ r ∈ s.2, r.addr % PAGE_SIZE = 0 ∧ r.size % PAGE_SIZE = 0 ∧ ∃ p ∈ walk, r.originalOffset = p.2

lemma clusterPage_inv {walk : List Page} {ms : Nat} {p : Page} (hp : p ∈ walk)
    (hp1 : p.1 % PAGE_SIZE = 0) {s : Cluster × List Refactor} (hs : ClusterInv walk s) :
    ClusterInv walk (clusterPage ms s p.1 p.2) := by
  obtain ⟨hc, hr⟩ := hs
  simp only [clusterPage]
  split_ifs with hnew hstarted
  · refine ⟨fun _ => ⟨hp1, Nat.mod_self _, p, hp, rfl⟩, fun r hr' => ?_⟩
    rcases List.mem_append.mp hr' with hr' | hr'
    · exact hr r hr'
    · obtain ⟨ha, hsz, q, hq, ho⟩ := hc hstarted
      rw [List.mem_singleton.mp hr']
      exact ⟨ha, hsz, q, hq, ho⟩
  · exact ⟨fun _ => ⟨hp1, Nat.mod_self _, p, hp, rfl⟩, hr⟩
  · have hstarted : 0 ≤ s.1.currAddr := by omega
    obtain ⟨ha, hsz, q, hq, ho⟩ := hc hstarted
    refine ⟨fun _ => ⟨ha, ?_, q, hq, ho⟩, hr⟩
    simp only [u64, PAGE_SIZE_int] at hp1 ha hsz ⊢
    unfold PAGE_SIZE at *
    omega

lemma foldl_clusterPage_inv {walk : List Page} (ms : Nat) (hw : ∀ p ∈ walk, p.1 % PAGE_SIZE = 0) :
    ∀ (ps : List Page), (∀ p ∈ ps, p ∈ walk) → ∀ {s : Cluster × List Refactor}, ClusterInv walk s →
      ClusterInv walk (ps.foldl (fun s p => clusterPage ms s p.1 p.2) s) := by
  intro ps
  induction ps with
  | nil => exact fun _ _ hs => hs
  | cons p ps ih =>
    intro hps s hs
    have hp := hps p (List.mem_cons_self p ps)
    exact ih (fun q hq => hps q (List.mem_cons_of_mem p hq)) (clusterPage_inv hp (hw p hp) hs)

/-- Every refactor of the loop starts at a page-aligned address and at a page of the walk,
and spans whole pages. -/
lemma clusterWalk_pages (ms : Nat) {walk : List Page} (hw : ∀ p ∈ walk, p.1 % PAGE_SIZE = 0) :
    ∀ r ∈ clusterWalk ms walk,
      r.addr % PAGE_SIZE = 0 ∧ r.size % PAGE_SIZE = 0 ∧ ∃ p ∈ walk, r.originalOffset = p.2 := by
  have hinit : ClusterInv walk (Cluster.init, []) :=
    ⟨fun h => absurd h (by simp [Cluster.init, INTPTR_MIN]), by simp⟩
  obtain ⟨hc, hr⟩ := foldl_clusterPage_inv ms hw walk (fun _ h => h) hinit
  intro r hr'
  unfold clusterWalk flushCluster at hr'
  split_ifs at hr' with hstarted
  · rcases List.mem_append.mp hr' with hr' | hr'
    · exact hr r hr'
    · obtain ⟨ha, hsz, q, hq, ho⟩ := hc hstarted
      rw [List.mem_singleton.mp hr']
      exact ⟨ha, hsz, q, hq, ho⟩
  · exact hr r hr'

/-! ### Step #2 writes nothing below the image but original bytes -/

lemma restoreAll_eq (original data : Mem) (size : Nat) (rs : List Refactor) :
    restoreAll original data size rs = (rs.foldl (copyRefactor original) (data, size, [])).1 :=
  rfl

lemma copyRefactor_eq (original m : Mem) (pos : Nat) (done : List Refactor) (r : Refactor) :
    copyRefactor original (m, pos, done) r =
      ((m.copy pos m r.originalOffset.toNat r.size).copy r.originalOffset.toNat original
          r.originalOffset.toNat r.size, pos + r.size, done ++ [{ r with patchedOffset := pos }]) :=
  rfl

lemma copyRefactor_below (original m : Mem) (pos : Nat) {r : Refactor}
    (h0 : 0 ≤ r.originalOffset) {i : Nat} (hi : i < pos) :
    (m.copy pos m r.originalOffset.toNat r.size).copy r.originalOffset.toNat original
        r.originalOffset.toNat r.size i = if r.Covers i then original i else m i := by
  simp only [Mem.copy, Refactor.Covers]
  split_ifs <;> first | omega | (congr 1; omega) | rfl

lemma foldl_copyRefactor_below (original : Mem) (rs : List Refactor)
    (h0 : ∀ r ∈ rs, 0 ≤ r.originalOffset) (m : Mem) (pos : Nat) (done : List Refactor) {i : Nat}
    (hi : i < pos) :
    (rs.foldl (copyRefactor original) (m, pos, done)).1 i =
      if ∃ r ∈ rs, r.Covers i then original i else m i := by
  induction rs generalizing m pos done with
  | nil => simp
  | cons r rs ih =>
    have hr := h0 r (List.mem_cons_self r rs)
    rw [List.foldl_cons, copyRefactor_eq,
      ih (fun q hq => h0 q (List.mem_cons_of_mem r hq)) _ _ _ (by omega),
      copyRefactor_below original m pos hr hi]
    by_cases hq : ∃ q ∈ rs, q.Covers i
    · simp [hq]
    · by_cases hc : r.Covers i <;> simp [hq, hc]

/-- The refactor loop writes nothing from the end of its copies on, when every range
starts below its first copy. -/
lemma foldl_copyRefactor_above (original : Mem) (rs : List Refactor) (m : Mem) (pos : Nat)
    (done : List Refactor) (h : ∀ r ∈ rs, r.originalOffset.toNat ≤ pos) {i : Nat}
    (hi : pos + totalSize rs ≤ i) : (rs.foldl (copyRefactor original) (m, pos, done)).1 i = m i := by
  induction rs generalizing m pos done with
  | nil => rfl
  | cons r rs ih =>
    have hr := h r (List.mem_cons_self r rs)
    rw [totalSize_cons] at hi
    rw [List.foldl_cons, copyRefactor_eq,
      ih _ _ _ (fun q hq => by have := h q (List.mem_cons_of_mem r hq); omega) (by omega)]
    simp only [Mem.copy]
    rw [if_neg (by omega), if_neg (by omega)]

/-- A run of step #1 that raises no error met its assertions. -/
lemma assertionsHold_of_ok {original data : Mem} {ms : Nat} {Is : InstrSet} (offsets : List Nat)
    {s s' : Cluster × List Refactor} (h : offsets.foldlM (findStep original data ms Is) s = .ok s') :
    ∀ o ∈ offsets, pageSame original data o = false →
      ∃ I, Is.lowerBound o = some I ∧ pageOffset I = o := by
  induction offsets generalizing s with
  | nil => simp
  | cons o os ih =>
    rw [List.foldlM_cons] at h
    obtain ⟨s₁, h₁, h⟩ := bind_eq_ok.mp h
    intro o' ho' hs
    rcases List.mem_cons.mp ho' with rfl | ho'
    · simp only [findStep, hs, Bool.false_eq_true, if_false] at h₁
      split at h₁
      · cases h₁
      · rename_i I hI
        obtain ⟨hp, -⟩ := ok_of_ite_throw (c := ¬pageOffset I = o') (by
          rw [ite_not]
          exact h₁)
        exact ⟨I, hI, not_not.mp hp⟩
    · exact ih h o' ho' hs

lemma exists_covers_placeFrom (size : Nat) (rs : List Refactor) (i : Nat) :
    (∃ r ∈ placeFrom size rs, r.Covers i) ↔ ∃ r ∈ rs, r.Covers i := by
  have e : ∀ l : List Refactor, (∃ r ∈ l, r.Covers i) ↔
      ∃ x ∈ l.map Refactor.span, x.2.1 ≤ i ∧ (i : Int) < x.2.1 + (x.2.2 : Int) := by
    simp [Refactor.Covers, Refactor.span]
  rw [e, placeFrom_span, ← e]

lemma totalSize_placeFrom (size : Nat) (rs : List Refactor) :
    totalSize (placeFrom size rs) = totalSize rs := by
  induction rs generalizing size with
  | nil => rfl
  | cons r rs ih => simp [placeFrom, ih]

/-- What step (2) writes, in every run that raises no error: below the page-aligned size
only original bytes inside the refactors' ranges, nothing from the end of its copies on,
and a growth of whole pages. -/
theorem emitRefactoredPatch_frame {static : Bool} {original data data₂ : Mem} {S ms g : Nat}
    {Is : InstrSet} {rs : List Refactor}
    (h : emitRefactoredPatch static original data S ms Is = .ok (data₂, g, rs)) :
    (∀ i < S, data₂ i = if ∃ r ∈ rs, r.Covers i then original i else data i) ∧
      (∀ i, S + g ≤ i → data₂ i = data i) ∧ g = totalSize rs ∧ ∀ r ∈ rs, r.size % PAGE_SIZE = 0 := by
  cases static
  · have h' := h
    simp only [emitRefactoredPatch, Bool.false_eq_true, if_false] at h'
    obtain ⟨hS, h'⟩ := ok_of_ite_throw h'
    obtain ⟨s, hs, -⟩ := bind_eq_ok.mp h'
    have hA : AssertionsHold original data Is S := assertionsHold_of_ok _ hs
    rw [emitRefactoredPatch_eq original data S ms Is (not_not.mp hS) hA] at h
    simp only [Except.ok.injEq, Prod.mk.injEq] at h
    obtain ⟨rfl, rfl, rfl⟩ := h
    have hpages := @clusterWalk_pages ms (dirtyWalk original data Is S)
      fun p hp => (dirtyWalk_page hp).2.2.2
    have hpos : ∀ r ∈ clusterWalk ms (dirtyWalk original data Is S),
        0 ≤ r.originalOffset ∧ r.originalOffset + PAGE_SIZE ≤ S := fun r hr => by
      obtain ⟨-, -, p, hp, ho⟩ := hpages r hr
      have := dirtyWalk_page hp
      omega
    refine ⟨fun i hi => ?_, fun i hi => ?_, ?_, fun r hr => ?_⟩
    · rw [restoreAll_eq, foldl_copyRefactor_below _ _ (fun r hr => (hpos r hr).1) _ _ _ hi]
      simp only [exists_covers_placeFrom]
    · rw [restoreAll_eq]
      refine foldl_copyRefactor_above _ _ _ _ _ (fun r hr => ?_) hi
      have := hpos r hr
      omega
    · exact (totalSize_placeFrom S _).symm
    · obtain ⟨q, hq, hspan⟩ := mem_placeFrom hr
      simp only [Refactor.span, Prod.mk.injEq] at hspan
      rw [hspan.2.2]
      exact (hpages q hq).2.1
  · simp only [emitRefactoredPatch, if_true, pure, Except.pure, Except.ok.injEq,
      Prod.mk.injEq] at h
    obtain ⟨rfl, rfl, rfl⟩ := h
    simp [totalSize]

/-- A run with refactoring on that raises no error had a page-aligned size, and its
assertions held. -/
lemma assertions_of_ok {original data : Mem} {S ms : Nat} {Is : InstrSet}
    {r : Mem × Nat × List Refactor} (h : emitRefactoredPatch false original data S ms Is = .ok r) :
    S % PAGE_SIZE = 0 ∧ AssertionsHold original data Is S := by
  simp only [emitRefactoredPatch, Bool.false_eq_true, if_false] at h
  obtain ⟨hS, h⟩ := ok_of_ite_throw h
  obtain ⟨s, hs, -⟩ := bind_eq_ok.mp h
  exact ⟨not_not.mp hS, assertionsHold_of_ok _ hs⟩

/-- Every run places its refactors' copies one after the other from the size on, each
refactor at a page-aligned address and spanning whole pages. -/
lemma emitRefactoredPatch_placed {static : Bool} {original data data₂ : Mem} {S ms g : Nat}
    {Is : InstrSet} {rs : List Refactor}
    (h : emitRefactoredPatch static original data S ms Is = .ok (data₂, g, rs)) :
    ∃ rs₀, rs = placeFrom S rs₀ ∧ ∀ r ∈ rs₀, r.addr % PAGE_SIZE = 0 ∧ r.size % PAGE_SIZE = 0 := by
  cases static
  · obtain ⟨hS, hA⟩ := assertions_of_ok h
    rw [emitRefactoredPatch_eq original data S ms Is hS hA] at h
    simp only [Except.ok.injEq, Prod.mk.injEq] at h
    refine ⟨_, h.2.2.symm, fun r hr => ?_⟩
    obtain ⟨ha, hsz, -⟩ := clusterWalk_pages ms (fun p hp => (dirtyWalk_page hp).2.2.2) r hr
    exact ⟨ha, hsz⟩
  · simp only [emitRefactoredPatch, if_true, pure, Except.pure, Except.ok.injEq, Prod.mk.injEq] at h
    exact ⟨[], h.2.2.symm, nofun⟩

/-! ### The stages of a run -/

lemma emitPatches_eq_ok {opts : Options} {B : Binary} {mappings : List Mapping} {ms : Nat}
    {data₃ : Mem} {size₃ : Nat} {rs : List Refactor} {offsets : List Nat}
    (h : emitPatches opts B mappings ms = .ok (data₃, size₃, rs, offsets)) :
    ∃ data₂ g, emitRefactoredPatch opts.option_loader_static B.original B.data (pageRoundUp B.size)
        ms B.Is = .ok (data₂, g, rs) ∧
      data₃ = data₂.write (pageRoundUp B.size + g) (blobs mappings) ∧
      size₃ = pageRoundUp B.size + g + (blobs mappings).length ∧
      offsets = blobOffsets (pageRoundUp B.size + g) mappings := by
  simp only [emitPatches] at h
  obtain ⟨⟨data₂, g, rs'⟩, h₂, h⟩ := bind_eq_ok.mp h
  simp only [emitTrampolines_eq, pure, Except.pure, Except.ok.injEq, Prod.mk.injEq] at h
  obtain ⟨rfl, rfl, rfl, rfl⟩ := h
  exact ⟨data₂, g, h₂, rfl, rfl, rfl⟩

/-- Where step (5) stores the entry address: `e_entry` at offset 24 of the ELF header, or the
`d_ptr` of the first `DT_INIT` entry before any `DT_NULL` of the dynamic table. -/
def entrySite (B : Binary) (data : Mem) : Option Nat :=
  match B.mode with
  | .elfExe => some 24
  | .elfDso => B.elf.phdrDynamic.bind fun p =>
      (findInit data (p_offset data p) (List.range (p_memsz data p / DYN_SIZE))).map
        fun i => p_offset data p + i * DYN_SIZE + 8

/-- Step (5) at a known site: the value there saved in `config->entry`, the entry address
stored there, and for an executable the flag set. -/
def rewireAt (B : Binary) (config_offset : Nat) (entry : Int) (site : Nat) (data : Mem) : Mem :=
  let data := data.writeLE (config_offset + Config.entry) 8 (data.readLE site 8)
  let data := data.writeLE site 8 (u64 entry)
  match B.mode with
  | .elfExe => data.writeLE (config_offset + Config.flags) 4
      (data.readLE (config_offset + Config.flags) 4 ||| E9_FLAG_EXE)
  | .elfDso => data

lemma rewireEntry_eq_ok {B : Binary} {co : Nat} {entry : Int} {data data' : Mem}
    (h : rewireEntry B co entry data = .ok data') :
    ∃ site, entrySite B (storeDynamic B co data) = some site ∧
      data' = rewireAt B co entry site (storeDynamic B co data) := by
  unfold rewireEntry at h
  cases hm : B.mode <;> simp only [hm] at h
  · cases h
    exact ⟨24, by simp [entrySite, hm], by simp [rewireAt, hm, e_entry]⟩
  · split at h
    · cases h
    · rename_i p hp
      split at h
      · cases h
      · rename_i i hi
        cases h
        exact ⟨p_offset (storeDynamic B co data) p + i * DYN_SIZE + 8,
          by simp [entrySite, hm, hp, hi], by simp [rewireAt, hm]⟩

lemma repurposePhdr_eq_ok {opts : Options} {elf : ElfInfo} {co cs : Nat} {data data' : Mem}
    (h : repurposePhdr opts elf co cs data = .ok data') :
    ∃ p, (selectPhdr opts.option_loader_phdr elf).1 = some p ∧
      data' = data.write p (loaderPhdr co opts.option_loader_base cs) := by
  unfold repurposePhdr at h
  split at h
  · cases h
  · rename_i p _ hp
    cases h
    exact ⟨p, by rw [hp], rfl⟩

lemma rewireEntry_of_entrySite {B : Binary} {co : Nat} {entry : Int} {data : Mem} {site : Nat}
    (h : entrySite B (storeDynamic B co data) = some site) :
    rewireEntry B co entry data = .ok (rewireAt B co entry site (storeDynamic B co data)) := by
  unfold rewireEntry
  unfold entrySite at h
  cases hm : B.mode <;> simp only [hm] at h ⊢
  · cases h
    simp only [rewireAt, hm]
    rfl
  · cases hp : B.elf.phdrDynamic with
    | none => simp [hp] at h
    | some p =>
      simp only [hp, Option.some_bind, Option.map_eq_some'] at h
      obtain ⟨i, hi, rfl⟩ := h
      simp only [hi, rewireAt, hm]
      rfl

lemma repurposePhdr_of_selectPhdr {opts : Options} {elf : ElfInfo} {co cs : Nat} {data : Mem}
    {p : Nat} (h : (selectPhdr opts.option_loader_phdr elf).1 = some p) :
    repurposePhdr opts elf co cs data = .ok (data.write p (loaderPhdr co opts.option_loader_base cs)) := by
  unfold repurposePhdr
  split <;> rename_i q _ hq <;> rw [hq] at h
  · cases h
  · cases h
    rfl

lemma emitElf_eq_ok {sp : AddressSpace} {opts : Options} {loader : Loader} {B : Binary}
    {mappings : List Mapping} {ms : Nat} {data' : Mem} {size : Nat} {offsets : List Nat}
    (h : emitElf sp opts loader B mappings ms = .ok (data', size, offsets)) :
    ∃ data₃ size₃ rs data₄ entry data₅,
      emitPatches opts B mappings ms = .ok (data₃, size₃, rs, offsets) ∧
      emitLoader sp opts loader B (mappings.zip offsets) rs (pageRoundUp size₃) data₃ =
        .ok (data₄, size, entry) ∧
      rewireEntry B (pageRoundUp size₃) entry data₄ = .ok data₅ ∧
      repurposePhdr opts B.elf (pageRoundUp size₃) (size - pageRoundUp size₃) data₅ = .ok data' := by
  unfold emitElf at h
  obtain ⟨⟨data₃, size₃, rs, offsets'⟩, h₃, h⟩ := bind_eq_ok.mp h
  obtain ⟨⟨data₄, size₄, entry⟩, h₄, h⟩ := bind_eq_ok.mp h
  obtain ⟨data₅, h₅, h⟩ := bind_eq_ok.mp h
  obtain ⟨data₆, h₆, h⟩ := bind_eq_ok.mp h
  simp only [pure, Except.pure, Except.ok.injEq, Prod.mk.injEq] at h
  obtain ⟨rfl, rfl, rfl⟩ := h
  exact ⟨data₃, size₃, rs, data₄, entry, data₅, h₃, h₄, h₅, h₆⟩

end E9Patch
