import E9Patch.Elf

/-!
# What `parseElf` accepts

`parseElf` returns without an error exactly on the images whose ELF header passes the nine
checks (`ElfHeaderOk`), whose address ranges can all be reserved in the order the code
reserves them (`elfReservations`: the low 64 KiB of an executable, the negative half unless
the image is a PIE, then every `PT_LOAD` segment), and whose recorded `PT_DYNAMIC` segment
ends inside the image (`DynamicOk`). What it returns is then determined: `pic` is whether
the image is a shared object, and each recorded program header is the last one of its type
in the table (`parseElf_ok_iff`).

The loop of the code is related to this description by one lemma per iteration
(`phdrStep_of_ne` and the `PT_LOAD` case of `foldlM_phdrStep`) and an induction over the
table.
-/

namespace E9Patch

def phdrTable (phoff n : Nat) : List Nat := (List.range n).map fun i => phoff + i * PHDR_SIZE

def loadRange (data : Mem) (phdr : Nat) : Int × Int :=
  (toIntptr (p_vaddr data phdr), toIntptr (toIntptr (p_vaddr data phdr) + p_memsz data phdr))

def loadRanges (data : Mem) (phdrs : List Nat) : List (Int × Int) :=
  (phdrs.filter fun p => p_type data p = PT_LOAD).map (loadRange data)

def lastOfType (data : Mem) (phdrs : List Nat) (t : Nat) : Option Nat :=
  (phdrs.filter fun p => p_type data p = t).getLast?

/-- The headers `parseElf` should record: the last one of each of the four types. -/
def lastHeaders (data : Mem) (phdrs : List Nat) : ElfInfo :=
  ⟨lastOfType data phdrs PT_NOTE, lastOfType data phdrs PT_GNU_RELRO, lastOfType data phdrs PT_GNU_STACK,
    lastOfType data phdrs PT_DYNAMIC⟩

/-- The checks on the ELF header, each stated as what it lets through. -/
structure ElfHeaderOk (data : Mem) (size : Nat) (mode : Mode) : Prop where
  size_ok : EHDR_SIZE ≤ size
  magic : elfMagic data
  class64 : (data 4).toNat = ELFCLASS64
  lsb : (data 5).toNat = ELFDATA2LSB
  version : (data 6).toNat = EV_CURRENT
  machine : e_machine data = EM_X86_64
  phoff_ok : EHDR_SIZE ≤ e_phoff data ∧ e_phoff data < size
  phnum_ok : e_phnum data ≤ PN_XNUM
  table_ok : u64 (e_phoff data + e_phnum data * PHDR_SIZE) ≤ size
  /-- An executable only in `elfExe` mode; a shared object in either mode. -/
  type_ok : e_type data = ET_EXEC ∧ mode = .elfExe ∨ e_type data = ET_DYN

/-- Every range `parseElf` reserves, in the order it reserves them. -/
def elfReservations (sp : AddressSpace) (data : Mem) (mode : Mode) : List (Int × Int) :=
  (if e_type data = ET_EXEC then [(0x0, 0x10000)] else []) ++
    (if e_type data = ET_DYN ∧ mode = .elfExe then [] else [(sp.RELATIVE_ADDRESS_MIN, 0x0)]) ++
    loadRanges data (phdrTable (e_phoff data) (e_phnum data))

/-- The recorded dynamic segment ends inside the image, its end computed in `uint64_t`. -/
def DynamicOk (data : Mem) (size : Nat) (info : ElfInfo) : Prop :=
  ∀ p, info.phdrDynamic = some p → u64 (p_offset data p + p_memsz data p) ≤ size

/-- The headers recorded after `info` once the loop has gone over `phdrs`. -/
def headersFrom (data : Mem) (info : ElfInfo) (phdrs : List Nat) : ElfInfo :=
  ⟨(lastOfType data phdrs PT_NOTE).or info.phdrNote, (lastOfType data phdrs PT_GNU_RELRO).or info.phdrGnuRelro,
    (lastOfType data phdrs PT_GNU_STACK).or info.phdrGnuStack, (lastOfType data phdrs PT_DYNAMIC).or info.phdrDynamic⟩

@[simp] lemma lastOfType_nil (data : Mem) (t : Nat) : lastOfType data [] t = none := rfl

lemma lastOfType_cons (data : Mem) (p : Nat) (ps : List Nat) (t : Nat) :
    lastOfType data (p :: ps) t = (lastOfType data ps t).or (if p_type data p = t then some p else none) := by
  unfold lastOfType
  by_cases h : p_type data p = t
  · simp only [List.filter_cons, h, decide_True, if_true, List.getLast?_cons]
    cases (ps.filter fun p => p_type data p = t).getLast? <;> rfl
  · simp [List.filter_cons, h]

lemma headersFrom_cons (data : Mem) (info : ElfInfo) (p : Nat) (ps : List Nat) :
    headersFrom data info (p :: ps) = headersFrom data (headersFrom data info [p]) ps := by
  simp only [headersFrom, lastOfType_cons, Option.or_assoc, lastOfType_nil, Option.none_or]

lemma headersFrom_load {data : Mem} {p : Nat} (h : p_type data p = PT_LOAD) (info : ElfInfo) :
    headersFrom data info [p] = info := by
  simp only [headersFrom, lastOfType_cons, lastOfType_nil, Option.none_or, h]
  simp [PT_LOAD, PT_NOTE, PT_GNU_RELRO, PT_GNU_STACK, PT_DYNAMIC]

lemma headersFrom_empty (data : Mem) (phdrs : List Nat) :
    headersFrom data ElfInfo.empty phdrs = lastHeaders data phdrs := by
  simp only [headersFrom, ElfInfo.empty, Option.or_none, lastHeaders]

lemma dynamicCheck_eq_ok {filename : String} {data : Mem} {size : Nat} {info : ElfInfo} :
    dynamicCheck filename data size info = .ok () ↔ DynamicOk data size info := by
  unfold dynamicCheck DynamicOk
  cases info.phdrDynamic with
  | none => simp [pure, Except.pure]
  | some p =>
    by_cases h : size < u64 (p_offset data p + p_memsz data p)
    · simp [h, throw, throwThe, MonadExceptOf.throw]
    · simp [h, pure, Except.pure]
      omega

section Reserve

variable {σ : Type} (reserve : σ → Int → Int → Option σ)

def reserveAll (rs : σ) (ranges : List (Int × Int)) : Option σ :=
  ranges.foldlM (fun rs r => reserve rs r.1 r.2) rs

lemma reserveAll_append (rs : σ) (a b : List (Int × Int)) :
    reserveAll reserve rs (a ++ b) = (reserveAll reserve rs a).bind fun rs => reserveAll reserve rs b := by
  simp only [reserveAll, List.foldlM_append]
  rfl

/-- An iteration at a header that is not `PT_LOAD` reserves nothing and records the header. -/
lemma phdrStep_of_ne {data : Mem} {phoff i : Nat} (h : p_type data (phoff + i * PHDR_SIZE) ≠ PT_LOAD)
    (s : ElfInfo × σ) :
    phdrStep reserve data phoff s i = pure (headersFrom data s.1 [phoff + i * PHDR_SIZE], s.2) := by
  unfold phdrStep
  simp only [if_neg h]
  split_ifs <;> simp_all [headersFrom, lastOfType_cons, PT_NOTE, PT_GNU_RELRO, PT_GNU_STACK, PT_DYNAMIC]

/-- The program-header loop over the indices `l` raises no error exactly when the `PT_LOAD`
ranges of those headers can be reserved, and it then records the last header of each type. -/
lemma foldlM_phdrStep (data : Mem) (phoff : Nat) (l : List Nat) :
    ∀ {s : ElfInfo × σ} {info' : ElfInfo} {rs' : σ},
      l.foldlM (phdrStep reserve data phoff) s = .ok (info', rs') ↔
        reserveAll reserve s.2 (loadRanges data (l.map fun i => phoff + i * PHDR_SIZE)) = some rs' ∧
          info' = headersFrom data s.1 (l.map fun i => phoff + i * PHDR_SIZE) := by
  induction l with
  | nil =>
    rintro ⟨⟨⟩, rs⟩ info' rs'
    simp [reserveAll, loadRanges, headersFrom, lastOfType, pure, Except.pure, eq_comm, and_comm]
  | cons i l ih =>
    intro s info' rs'
    rw [List.foldlM_cons, List.map_cons, headersFrom_cons]
    by_cases hL : p_type data (phoff + i * PHDR_SIZE) = PT_LOAD
    · have hl : loadRanges data ((phoff + i * PHDR_SIZE) :: l.map fun i => phoff + i * PHDR_SIZE) =
          loadRange data (phoff + i * PHDR_SIZE) :: loadRanges data (l.map fun i => phoff + i * PHDR_SIZE) := by
        simp [loadRanges, List.filter_cons, hL]
      rw [headersFrom_load hL, hl]
      unfold phdrStep
      simp only [if_pos hL, reserveAll, List.foldlM_cons, loadRange]
      split <;> rename_i hr
      · simp [hr, throw, throwThe, MonadExceptOf.throw, bind, Except.bind]
      · simp only [hr, pure_bind, Option.some_bind]
        exact ih
    · rw [phdrStep_of_ne reserve hL, pure_bind, ih]
      simp [loadRanges, List.filter_cons, hL]

lemma elfType_eq_ok {filename : String} {etype : Nat} {mode : Mode} {rs rs₁ : σ} {pic pie : Bool} :
    elfType reserve filename etype mode rs = .ok (pic, pie, rs₁) ↔
      (etype = ET_EXEC ∧ mode = .elfExe ∧ reserve rs 0x0 0x10000 = some rs₁ ∧ pic = false ∧ pie = false) ∨
        (etype = ET_DYN ∧ pic = true ∧ pie = decide (mode = .elfExe) ∧ rs₁ = rs) := by
  have hne : ET_DYN ≠ ET_EXEC := by decide
  unfold elfType
  by_cases hE : etype = ET_EXEC
  · subst hE
    cases mode
    · cases h : reserve rs 0x0 0x10000
      · simp [h, hne.symm, throw, throwThe, MonadExceptOf.throw]
      · simp [h, hne.symm, pure, Except.pure]
        tauto
    · simp [hne.symm, throw, throwThe, MonadExceptOf.throw]
  · by_cases hD : etype = ET_DYN
    · subst hD
      simp [hne, pure, Except.pure]
      tauto
    · simp [hE, hD, throw, throwThe, MonadExceptOf.throw]

lemma reserveNegative_eq_ok {sp : AddressSpace} {pie : Bool} {rs₁ rs₂ : σ} :
    reserveNegative reserve sp pie rs₁ = .ok rs₂ ↔
      reserveAll reserve rs₁ (if pie then [] else [(sp.RELATIVE_ADDRESS_MIN, 0x0)]) = some rs₂ := by
  unfold reserveNegative
  cases pie
  · simp only [Bool.false_eq_true, if_false, reserveAll, List.foldlM_cons, List.foldlM_nil]
    cases reserve rs₁ sp.RELATIVE_ADDRESS_MIN 0x0 <;> simp [throw, throwThe, MonadExceptOf.throw, pure, Except.pure]
  · simp [reserveAll, pure, Except.pure, eq_comm]

/-- The `switch` on `e_type` followed by the reservation of the negative half: together they
accept an executable in `elfExe` mode or a shared object, and reserve the first two parts of
`elfReservations`. -/
lemma typeReserve_iff {sp : AddressSpace} {etype : Nat} {mode : Mode} {rs rs₂ : σ} {pic : Bool} :
    (∃ pie rs₁, ((etype = ET_EXEC ∧ mode = .elfExe ∧ reserve rs 0x0 0x10000 = some rs₁ ∧ pic = false ∧
        pie = false) ∨ (etype = ET_DYN ∧ pic = true ∧ pie = decide (mode = .elfExe) ∧ rs₁ = rs)) ∧
        reserveAll reserve rs₁ (if pie then [] else [(sp.RELATIVE_ADDRESS_MIN, 0x0)]) = some rs₂) ↔
      (etype = ET_EXEC ∧ mode = .elfExe ∨ etype = ET_DYN) ∧ pic = decide (etype = ET_DYN) ∧
        reserveAll reserve rs ((if etype = ET_EXEC then [(0x0, 0x10000)] else []) ++
          (if etype = ET_DYN ∧ mode = .elfExe then [] else [(sp.RELATIVE_ADDRESS_MIN, 0x0)])) = some rs₂ := by
  have hne : ET_DYN ≠ ET_EXEC := by decide
  by_cases hE : etype = ET_EXEC
  · subst hE
    cases mode
    · simp [hne.symm, reserveAll, Option.bind_eq_some]
      exact ⟨fun ⟨r, ⟨h1, hp⟩, h2⟩ => ⟨hp, r, h1, h2⟩, fun ⟨hp, r, h1, h2⟩ => ⟨r, ⟨h1, hp⟩, h2⟩⟩
    · simp [hne.symm]
  · by_cases hD : etype = ET_DYN
    · subst hD
      cases mode
      · simp [hne, reserveAll]
        exact fun _ => eq_comm
      · simp [hne, reserveAll]
        exact ⟨fun ⟨_, ⟨hp, e⟩, h⟩ => ⟨hp, e ▸ h⟩, fun ⟨hp, h⟩ => ⟨_, ⟨hp, rfl⟩, h⟩⟩
    · simp [hE, hD]

/-- `parseElf` raises no error exactly when the header passes its checks, every range of
`elfReservations` can be reserved in turn and the dynamic segment ends inside the image; it
then returns whether the image is a shared object, the last header of each type, and the
reservations made. -/
theorem parseElf_ok_iff {sp : AddressSpace} {filename : String} {data : Mem} {size : Nat} {mode : Mode}
    {rs rs' : σ} {pic : Bool} {info : ElfInfo} :
    parseElf reserve sp filename data size mode rs = .ok (pic, info, rs') ↔
      ElfHeaderOk data size mode ∧ reserveAll reserve rs (elfReservations sp data mode) = some rs' ∧
        pic = decide (e_type data = ET_DYN) ∧
        info = lastHeaders data (phdrTable (e_phoff data) (e_phnum data)) ∧ DynamicOk data size info := by
  constructor
  · intro h
    unfold parseElf at h
    simp only [ite_throw_eq_ok] at h
    obtain ⟨c1, c2, c3, c4, c5, c6, c7, c8, c9, h⟩ := h
    obtain ⟨⟨pic₀, pie, rs₁⟩, hE, h⟩ := bind_eq_ok.mp h
    obtain ⟨rs₂, hN, h⟩ := bind_eq_ok.mp h
    obtain ⟨⟨info₀, rs₃⟩, hL, h⟩ := bind_eq_ok.mp h
    obtain ⟨⟨⟩, hD, h⟩ := bind_eq_ok.mp h
    cases h
    obtain ⟨htype, hpic, hpre⟩ :=
      (typeReserve_iff reserve).mp ⟨pie, rs₁, (elfType_eq_ok reserve).mp hE, (reserveNegative_eq_ok reserve).mp hN⟩
    obtain ⟨hR, rfl⟩ := (foldlM_phdrStep reserve data _ _).mp hL
    refine ⟨⟨by omega, not_not.mp c2, not_not.mp c3, not_not.mp c4, not_not.mp c5, not_not.mp c6,
      by omega, by omega, by omega, htype⟩, ?_, hpic, headersFrom_empty _ _, dynamicCheck_eq_ok.mp hD⟩
    rw [elfReservations, reserveAll_append, hpre]
    exact hR
  · rintro ⟨H, hR, hpic, rfl, hD⟩
    rw [elfReservations, reserveAll_append, Option.bind_eq_some] at hR
    obtain ⟨rs₂, hpre, hR⟩ := hR
    obtain ⟨pie, rs₁, hE, hN⟩ := (typeReserve_iff reserve).mpr ⟨H.type_ok, hpic, hpre⟩
    have := H.phoff_ok
    unfold parseElf
    simp only [ite_throw_eq_ok]
    refine ⟨by have := H.size_ok; omega, not_not.mpr H.magic, not_not.mpr H.class64, not_not.mpr H.lsb,
      not_not.mpr H.version, not_not.mpr H.machine, by omega, by have := H.phnum_ok; omega,
      by have := H.table_ok; omega, ?_⟩
    exact bind_eq_ok.mpr ⟨_, (elfType_eq_ok reserve).mpr hE, bind_eq_ok.mpr ⟨_, (reserveNegative_eq_ok reserve).mpr hN,
      bind_eq_ok.mpr ⟨_, (foldlM_phdrStep reserve data _ _).mpr ⟨hR, (headersFrom_empty _ _).symm⟩,
        bind_eq_ok.mpr ⟨(), dynamicCheck_eq_ok.mpr hD, rfl⟩⟩⟩⟩

end Reserve

end E9Patch
