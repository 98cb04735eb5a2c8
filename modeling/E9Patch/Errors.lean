import E9Patch.Frame

/-!
# When a run raises an error

Step #1 of `emitRefactoredPatch` raises an error only when it is not static and either the
size is not page-aligned or a dirty page does not start an instruction
(`emitRefactoredPatch_succeeds_iff`). After it, `emitElf` raises one only when a mapping
record fails the range checks of `emitLoaderMap`, a trampoline that is not absolute lies
above the loader base, step (5) finds no entry site, or step (6) no program header to
repurpose (`emitElf_succeeds_iff`).
-/

namespace E9Patch

theorem emitRefactoredPatch_succeeds_iff {static : Bool} {original data : Mem} {size ms : Nat}
    {Is : InstrSet} :
    (∃ r, emitRefactoredPatch static original data size ms Is = .ok r) ↔
      static = true ∨ size % PAGE_SIZE = 0 ∧ AssertionsHold original data Is size := by
  cases static
  · simp only [Bool.false_eq_true, false_or]
    refine ⟨fun ⟨_, h⟩ => ?_,
      fun ⟨hS, hA⟩ => ⟨_, emitRefactoredPatch_eq original data size ms Is hS hA⟩⟩
    simp only [emitRefactoredPatch, Bool.false_eq_true, if_false] at h
    obtain ⟨hS, h⟩ := ok_of_ite_throw h
    obtain ⟨_, h₁, -⟩ := bind_eq_ok.mp h
    exact ⟨not_not.mp hS, assertionsHold_of_ok _ h₁⟩
  · exact ⟨fun _ => .inl rfl, fun _ => ⟨_, rfl⟩⟩

def placedHeads (B : Binary) (g : Nat) (mappings : List Mapping) : List (Mapping × Nat) :=
  mappings.zip (blobOffsets (pageRoundUp B.size + g) mappings)

/-- What the rest of a run needs once step #1 has returned `data₂`, `g` and `rs`. -/
structure Emittable (sp : AddressSpace) (opts : Options) (B : Binary) (mappings : List Mapping)
    (data₂ : Mem) (g : Nat) (rs : List Refactor) : Prop where
  /-- Every record passes the checks of `emitLoaderMap`. -/
  fits : ∀ c ∈ tableCalls true (placedHeads B g mappings) ++
    postloadCalls (placedHeads B g mappings) rs, c.Fits sp
  /-- No trampoline that is not absolute lies above the loader base. -/
  below_base : ∀ c ∈ tableCalls true (placedHeads B g mappings) ++
    tableCalls false (placedHeads B g mappings),
      sp.IS_ABSOLUTE c.addr = false → c.addr ≤ opts.option_loader_base
  site : (entrySite B data₂).isSome
  phdr : (selectPhdr opts.option_loader_phdr B.elf).1.isSome

/-- Over an input that is zero past its end, with a loader base that is an `intptr_t`,
`emitElf` raises no error exactly when step #1 raises none and what it returns is
`Emittable`. -/
theorem emitElf_succeeds_iff {sp : AddressSpace} {opts : Options} {loader : Loader}
    {B : Binary} {mappings : List Mapping} {ms : Nat}
    (hbase : INTPTR_MIN ≤ opts.option_loader_base) (hz : ∀ j, B.size ≤ j → B.data j = 0)
    (hs : ElfSites B) :
    (∃ r, emitElf sp opts loader B mappings ms = .ok r) ↔
      ∃ data₂ g rs, emitRefactoredPatch opts.option_loader_static B.original B.data
        (pageRoundUp B.size) ms B.Is = .ok (data₂, g, rs) ∧ Emittable sp opts B mappings data₂ g rs := by
  constructor
  · rintro ⟨⟨data', size, offsets⟩, h⟩
    obtain ⟨_, _, rs, _, _, _, hP, hL, hR, hH⟩ := emitElf_eq_ok h
    obtain ⟨data₂, g, h₂, rfl, rfl, rfl⟩ := emitPatches_eq_ok hP
    obtain ⟨site, hsite, -⟩ := rewireEntry_eq_ok hR
    obtain ⟨p, hp, -⟩ := repurposePhdr_eq_ok hH
    have hfit := emitLoader_calls hL
    refine ⟨data₂, g, rs, h₂, hfit.1, hfit.2, ?_, by rw [hp]; rfl⟩
    rw [← entrySite_after_loader hz hs h₂ hL, hsite]
    rfl
  · rintro ⟨data₂, g, rs, h₂, E⟩
    obtain ⟨site, hsite⟩ := Option.isSome_iff_exists.mp E.site
    obtain ⟨p, hp⟩ := Option.isSome_iff_exists.mp E.phdr
    have hP : emitPatches opts B mappings ms = .ok (data₂.write (pageRoundUp B.size + g) (blobs mappings),
        pageRoundUp B.size + g + (blobs mappings).length, rs, blobOffsets (pageRoundUp B.size + g) mappings) := by
      simp only [emitPatches, h₂, emitTrampolines_eq]
      rfl
    unfold emitElf
    rw [hP]
    refine exists_ok_bind ⟨_, rfl⟩ ?_
    rintro _ ⟨⟩
    refine exists_ok_bind ((emitLoader_isOk hbase).mpr ⟨E.fits, E.below_base⟩) ?_
    rintro ⟨data₄, size, entry⟩ hL
    refine exists_ok_bind ⟨_, rewireEntry_of_entrySite ((entrySite_after_loader hz hs h₂ hL).trans hsite)⟩ ?_
    exact fun _ _ => exists_ok_bind ⟨_, repurposePhdr_of_selectPhdr hp⟩ fun _ _ => ⟨_, rfl⟩

theorem sample_emittable : ∃ data₂ g rs, emitRefactoredPatch sampleOptions.option_loader_static
    sampleImage.original sampleImage.data (pageRoundUp sampleImage.size) 0 sampleImage.Is =
      .ok (data₂, g, rs) ∧ Emittable sampleSpace sampleOptions sampleImage [] data₂ g rs := by
  obtain ⟨r, h, -⟩ := exists_ok_of_toOption (show (emitElf sampleSpace sampleOptions sampleLoader
    sampleImage [] 0).toOption.map (fun _ => ()) = some () by decide)
  exact (emitElf_succeeds_iff (by decide) (fun _ _ => rfl) sampleImage_sites).mp ⟨r, h⟩

end E9Patch
