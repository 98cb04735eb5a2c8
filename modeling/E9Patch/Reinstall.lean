import E9Patch.Restore

/-!
# What the refactor pass leaves in the image

Step #2 appends each refactor's bytes at its patched offset and writes the original bytes
back over its original range. When those ranges are disjoint and lie inside the image, every
covered byte ends up original, every other byte of the image is untouched, and each appended
copy holds the bytes its range had on entry.

A refactor's size is measured in virtual bytes but copied from the file, starting at the
file offset of its first page. This is exact for a walk whose pages all share one
`vaddr - offset` difference, as a single segment has; when a cluster spans pages of
different differences, a dirty page can fall outside the range that is restored, and the
range can run past the end of the image.
-/

namespace E9Patch

def Refactor.Covers (r : Refactor) (i : Nat) : Prop :=
  r.originalOffset ≤ i ∧ (i : Int) < r.originalOffset + (r.size : Int)

instance (r : Refactor) (i : Nat) : Decidable (r.Covers i) :=
  inferInstanceAs (Decidable (_ ∧ _))

/-- Refactor ranges that are pairwise disjoint and inside the first `pos` bytes. -/
structure RangesWithin (pos : Nat) (rs : List Refactor) : Prop where
  inside : ∀ r ∈ rs, 0 ≤ r.originalOffset ∧ r.originalOffset + (r.size : Int) ≤ pos
  disjoint : rs.Pairwise fun a b =>
    a.originalOffset + (a.size : Int) ≤ b.originalOffset ∨
      b.originalOffset + (b.size : Int) ≤ a.originalOffset

/-- Step #2 over refactors with disjoint ranges inside the image: covered bytes are restored,
other image bytes are kept, and each appended copy holds its range's bytes on entry. -/
theorem restore_spec (original : Mem) (rs : List Refactor) (m : Mem) (pos : Nat)
    (done : List Refactor) (h : RangesWithin pos rs) :
    (∀ i < pos, ∀ r ∈ rs, r.Covers i →
      (rs.foldl (copyRefactor original) (m, pos, done)).1 i = original i) ∧
    (∀ i < pos, (∀ r ∈ rs, ¬r.Covers i) →
      (rs.foldl (copyRefactor original) (m, pos, done)).1 i = m i) ∧
    (∀ r ∈ placeFrom pos rs, ∀ t < r.size,
      (rs.foldl (copyRefactor original) (m, pos, done)).1 (r.patchedOffset.toNat + t) =
        m (r.originalOffset.toNat + t)) := by
  induction rs generalizing m pos done with
  | nil => simp [placeFrom]
  | cons r rs ih =>
    obtain ⟨hin, hdisj⟩ := h
    have hr := hin r (List.mem_cons_self r rs)
    have hrest : RangesWithin (pos + r.size) rs :=
      ⟨fun q hq => by have := hin q (List.mem_cons_of_mem r hq); omega,
        (List.pairwise_cons.mp hdisj).2⟩
    have hsep := (List.pairwise_cons.mp hdisj).1
    -- the buffer after this refactor's copy and restore
    let m₂ := (m.copy pos m r.originalOffset.toNat r.size).copy r.originalOffset.toNat original
      r.originalOffset.toNat r.size
    have hstep : (r :: rs).foldl (copyRefactor original) (m, pos, done) =
        rs.foldl (copyRefactor original) (m₂, pos + r.size, done ++ [{ r with patchedOffset := pos }]) :=
      rfl
    obtain ⟨ha, hb, hc⟩ := ih m₂ (pos + r.size) (done ++ [{ r with patchedOffset := pos }]) hrest
    have below : ∀ i < pos, m₂ i = if r.Covers i then original i else m i := by
      intro i hi
      simp only [m₂, Mem.copy, Refactor.Covers]
      split_ifs <;> first | omega | (congr 1; omega) | rfl
    rw [hstep]
    refine ⟨fun i hi q hq hcov => ?_, fun i hi hnot => ?_, fun q hq t ht => ?_⟩
    · rcases List.mem_cons.mp hq with rfl | hq
      · by_cases hc' : ∃ q' ∈ rs, q'.Covers i
        · obtain ⟨q', hq', hcov'⟩ := hc'
          exact ha i (by omega) q' hq' hcov'
        · push_neg at hc'
          rw [hb i (by omega) hc', below i hi, if_pos hcov]
      · exact ha i (by omega) q hq hcov
    · rw [hb i (by omega) (fun q hq => hnot q (List.mem_cons_of_mem r hq)), below i hi,
        if_neg (hnot r (List.mem_cons_self r rs))]
    · simp only [placeFrom, List.mem_cons] at hq
      rcases hq with rfl | hq
      · -- this refactor's copy: outside every later range, then read from the entry buffer
        simp only [Int.toNat_ofNat] at ht ⊢
        rw [hb (pos + t) (by omega) (fun q hq hcov => by
            have := hin q (List.mem_cons_of_mem _ hq); simp only [Refactor.Covers] at hcov; omega)]
        simp only [m₂, Mem.copy]
        rw [if_neg (by omega), if_pos (by omega)]
        congr 1
        omega
      · -- a later copy reads a range disjoint from this one
        obtain ⟨q₀, hq₀, hspan⟩ := mem_placeFrom hq
        simp only [Refactor.span, Prod.mk.injEq] at hspan
        obtain ⟨-, ho, hs⟩ := hspan
        have h₀ := hin q₀ (List.mem_cons_of_mem r hq₀)
        have hs₀ := hsep q₀ hq₀
        rw [hc _ hq t ht, below _ (by omega), if_neg (by simp only [Refactor.Covers]; omega)]

lemma restoreAll_spec (original : Mem) (rs : List Refactor) (m : Mem) (pos : Nat)
    (h : RangesWithin pos rs) :
    (∀ i < pos, ∀ r ∈ rs, r.Covers i → restoreAll original m pos rs i = original i) ∧
    (∀ i < pos, (∀ r ∈ rs, ¬r.Covers i) → restoreAll original m pos rs i = m i) ∧
    (∀ r ∈ placeFrom pos rs, ∀ t < r.size,
      restoreAll original m pos rs (r.patchedOffset.toNat + t) = m (r.originalOffset.toNat + t)) :=
  restore_spec original rs m pos [] h

lemma totalSize_le_of_sorted (rs : List Refactor) (L S : Int)
    (hin : ∀ r ∈ rs, L ≤ r.originalOffset ∧ r.originalOffset + (r.size : Int) ≤ S)
    (hs : rs.Pairwise fun a b => a.originalOffset + (a.size : Int) ≤ b.originalOffset)
    (hLS : L ≤ S) : (totalSize rs : Int) ≤ S - L := by
  induction rs generalizing L with
  | nil => simpa using hLS
  | cons r rs ih =>
    have hr := hin r (List.mem_cons_self r rs)
    have := ih (r.originalOffset + r.size)
      (fun q hq => ⟨(List.pairwise_cons.mp hs).1 q hq, (hin q (List.mem_cons_of_mem r hq)).2⟩)
      (List.pairwise_cons.mp hs).2 hr.2
    simp only [totalSize_cons, Nat.cast_add]
    omega

lemma placeFrom_sorted {size : Nat} {rs : List Refactor}
    (h : rs.Pairwise fun a b => a.originalOffset + (a.size : Int) ≤ b.originalOffset) :
    (placeFrom size rs).Pairwise fun a b => a.originalOffset + (a.size : Int) ≤ b.originalOffset := by
  induction rs generalizing size with
  | nil => exact List.Pairwise.nil
  | cons r rs ih =>
    refine List.pairwise_cons.mpr ⟨fun b hb => ?_, ih (List.pairwise_cons.mp h).2⟩
    obtain ⟨b₀, hb₀, hspan⟩ := mem_placeFrom hb
    simp only [Refactor.span, Prod.mk.injEq] at hspan
    rw [hspan.2.1]
    exact (List.pairwise_cons.mp h).1 b₀ hb₀

/-! ### A walk inside one segment -/

lemma toIntptr_toNat_le (n : Nat) : (toIntptr n).toNat ≤ n := by
  unfold toIntptr
  rw [Int.bmod_def]
  norm_num
  split <;> omega

lemma dirtyWalk_page {original data : Mem} {Is : InstrSet} {S : Nat} {p : Page}
    (h : p ∈ dirtyWalk original data Is S) :
    0 ≤ p.2 ∧ p.2 % PAGE_SIZE = 0 ∧ p.2 + PAGE_SIZE ≤ S ∧ p.1 % PAGE_SIZE = 0 := by
  obtain ⟨o, ho, h2, -, I, -, h1⟩ := mem_dirtyWalk h
  have := mem_pageOffsets ho
  have := toIntptr_toNat_le S
  have := pageAddr_mod I
  rw [h1, h2]
  simp only [PAGE_SIZE_int] at *
  unfold PAGE_SIZE at *
  omega

/-- The walk's pages all lie at `vaddr = offset + δ`, at non-negative addresses that leave
room for `mapping_size` below `2 ^ 63`. -/
def SingleSegment (walk : List Page) (ms : Nat) (δ : Int) : Prop :=
  ∀ p ∈ walk, p.1 = p.2 + δ ∧ 0 ≤ p.1 ∧ p.1 + PAGE_SIZE + ms < 2 ^ 63

lemma group_first_last_mem {ms : Nat} {walk : List Page} {g : Group}
    (hg : g ∈ greedyGroups ms walk) : g.first ∈ walk ∧ g.last ∈ walk := by
  have ends := greedyGroups_ends ms walk g hg
  have sub : ∀ p ∈ g.pages, p ∈ walk := fun p hp => by
    rw [← greedyGroups_pages ms walk]
    exact List.mem_flatMap.mpr ⟨g, hg, hp⟩
  exact ⟨sub _ (List.mem_of_mem_head? ends.1), sub _ (List.mem_of_mem_getLast? ends.2)⟩

section Segment

variable {original data : Mem} {Is : InstrSet} {S ms : Nat} {δ : Int}

/-- In one segment, a group's refactor covers the file range from its first page to the end
of its last page. -/
lemma segment_refactor (hw : SingleSegment (dirtyWalk original data Is S) ms δ) {g : Group}
    (hg : g ∈ greedyGroups ms (dirtyWalk original data Is S)) :
    g.refactor.originalOffset = g.first.2 ∧
      (g.refactor.size : Int) = g.last.2 + PAGE_SIZE - g.first.2 ∧ g.first.2 ≤ g.last.2 := by
  have hs := (greedyGroups_sorted ms _ (dirtyWalk_sorted original data Is S)).1 g hg
  obtain ⟨hf, hl⟩ := group_first_last_mem hg
  have ef := (hw _ hf).1
  have el := (hw _ hl).1
  have hfl := (hs g.last (List.mem_of_mem_getLast? (greedyGroups_ends ms _ g hg).2)).1
  have hP : (PAGE_SIZE : Int) = 4096 := rfl
  refine ⟨rfl, ?_, hfl⟩
  simp only [Group.refactor, Refactor.new]
  omega

lemma segment_sorted (hw : SingleSegment (dirtyWalk original data Is S) ms δ) :
    (∀ r ∈ clusterWalk ms (dirtyWalk original data Is S),
      0 ≤ r.originalOffset ∧ r.originalOffset + (r.size : Int) ≤ S) ∧
    (clusterWalk ms (dirtyWalk original data Is S)).Pairwise fun a b =>
      a.originalOffset + (a.size : Int) ≤ b.originalOffset := by
  rw [clusterWalk_eq_greedy ms _ fun p hp => (hw p hp).2]
  have hsort := (greedyGroups_sorted ms _ (dirtyWalk_sorted original data Is S)).2
  refine ⟨fun r hr => ?_, List.pairwise_map.mpr (hsort.imp_of_mem fun {g g'} hg hg' hgg => ?_)⟩
  · obtain ⟨g, hg, rfl⟩ := List.mem_map.mp hr
    obtain ⟨e1, e2, -⟩ := segment_refactor hw hg
    have := dirtyWalk_page (group_first_last_mem hg).1
    have := dirtyWalk_page (group_first_last_mem hg).2
    omega
  · obtain ⟨e1, e2, -⟩ := segment_refactor hw hg
    have := dirtyWalk_page (group_first_last_mem hg).2
    have := dirtyWalk_page (group_first_last_mem hg').1
    rw [e1, e2, show g'.refactor.originalOffset = g'.first.2 from rfl]
    simp only [PAGE_SIZE_int] at *
    omega

lemma segment_rangesWithin (hw : SingleSegment (dirtyWalk original data Is S) ms δ) :
    RangesWithin S (clusterWalk ms (dirtyWalk original data Is S)) :=
  ⟨(segment_sorted hw).1, (segment_sorted hw).2.imp Or.inl⟩

lemma segment_group_of_mem (hw : SingleSegment (dirtyWalk original data Is S) ms δ) {p : Page}
    (hp : p ∈ dirtyWalk original data Is S) :
    ∃ g ∈ greedyGroups ms (dirtyWalk original data Is S), g.first.2 ≤ p.2 ∧ p.2 ≤ g.last.2 ∧
      g.first.1 ≤ p.1 ∧ p.1 ≤ g.last.1 := by
  rw [← greedyGroups_pages ms (dirtyWalk original data Is S)] at hp
  obtain ⟨g, hg, hpg⟩ := List.mem_flatMap.mp hp
  rw [greedyGroups_pages] at hp
  have hs := (greedyGroups_sorted ms _ (dirtyWalk_sorted original data Is S)).1 g hg p hpg
  obtain ⟨hf, hl⟩ := group_first_last_mem hg
  have := (hw _ hp).1
  have := (hw _ hf).1
  have := (hw _ hl).1
  exact ⟨g, hg, hs.1, hs.2, by omega, by omega⟩

/-- In one segment, step #2 leaves the original image below `S`: a dirty page lies in the
original range of its group's refactor, and a clean page keeps its original bytes. -/
lemma segment_restores (hS : S % PAGE_SIZE = 0) (hS63 : S < 2 ^ 63) (hA : AssertionsHold original data Is S)
    (hw : SingleSegment (dirtyWalk original data Is S) ms δ) :
    ∀ i < S, restoreAll original data S (clusterWalk ms (dirtyWalk original data Is S)) i = original i := by
  obtain ⟨ha, hb, -⟩ := restoreAll_spec original _ data S (segment_rangesWithin hw)
  have hrs := clusterWalk_eq_greedy ms _ fun p hp => (hw p hp).2
  intro i hi
  -- the page of `i` is visited by the walk
  have ho : i / PAGE_SIZE * PAGE_SIZE ∈ pageOffsets S := by
    rw [pageOffsets_of_lt hS63]
    refine List.mem_map.mpr ⟨i / PAGE_SIZE, List.mem_range.mpr ?_, rfl⟩
    unfold PAGE_SIZE at *
    omega
  cases hsame : pageSame original data (i / PAGE_SIZE * PAGE_SIZE)
  · obtain ⟨I, hI, -⟩ := hA _ ho hsame
    have hp : (pageAddr I, ((i / PAGE_SIZE * PAGE_SIZE : Nat) : Int)) ∈ dirtyWalk original data Is S :=
      List.mem_filterMap.mpr ⟨_, ho, by rw [walkPage_dirty hsame, hI]; rfl⟩
    obtain ⟨g, hg, h1, h2, -⟩ := segment_group_of_mem hw hp
    obtain ⟨e1, e2, -⟩ := segment_refactor hw hg
    refine ha i hi g.refactor (hrs ▸ List.mem_map_of_mem _ hg) ⟨?_, ?_⟩
    · rw [e1]
      simp only at h1
      unfold PAGE_SIZE at *
      omega
    · rw [e1, e2]
      simp only at h2
      simp only [PAGE_SIZE_int] at *
      unfold PAGE_SIZE at *
      omega
  · by_cases hcov : ∃ r ∈ clusterWalk ms (dirtyWalk original data Is S), r.Covers i
    · obtain ⟨r, hr, hc⟩ := hcov
      exact ha i hi r hr hc
    · push_neg at hcov
      rw [hb i hi hcov]
      have := pageSame_iff.mp hsame (i - i / PAGE_SIZE * PAGE_SIZE) (by unfold PAGE_SIZE; omega)
      rwa [Nat.add_sub_cancel' (Nat.div_mul_le_self i PAGE_SIZE), eq_comm] at this

lemma segment_covers (hw : SingleSegment (dirtyWalk original data Is S) ms δ) {p : Page}
    (hp : p ∈ dirtyWalk original data Is S) :
    ∃ r ∈ placeFrom S (clusterWalk ms (dirtyWalk original data Is S)), r.addr ≤ p.1 ∧ p.1 < r.addr + r.size := by
  have hrs := clusterWalk_eq_greedy ms _ fun p hp => (hw p hp).2
  obtain ⟨g, hg, -, -, h3, h4⟩ := segment_group_of_mem hw hp
  have hmem : g.refactor.span ∈
      (placeFrom S (clusterWalk ms (dirtyWalk original data Is S))).map Refactor.span := by
    rw [placeFrom_span, hrs, List.map_map]
    exact List.mem_map_of_mem _ hg
  obtain ⟨q, hq, hspan⟩ := List.mem_map.mp hmem
  obtain ⟨e1, e2, -⟩ := segment_refactor hw hg
  simp only [Refactor.span, Prod.mk.injEq] at hspan
  obtain ⟨ha, -, hs⟩ := hspan
  have := (hw _ (group_first_last_mem hg).1).1
  have := (hw _ (group_first_last_mem hg).2).1
  refine ⟨q, hq, ?_, ?_⟩
  · rw [ha]
    exact h3
  · rw [ha, hs, e2, show g.refactor.addr = g.first.1 from rfl]
    simp only [PAGE_SIZE_int] at *
    omega

/-- Where a dirty page of one segment sits in the copy of a refactor that contains it: the
page at `(a, o)` lies `a - fa` bytes into the refactor whose first page is `(fa, fo)` and
whose last page is at file offset `lo`, inside its `size` bytes. -/
lemma copy_offset_arith {a o fa fo lo δ q : Int} {k size : Nat} (ha : a = o + δ)
    (hfa : fa = fo + δ) (ho : 0 ≤ o) (hfo : 0 ≤ fo) (hom : o % 4096 = 0) (hlom : lo % 4096 = 0)
    (hlo : fa ≤ a) (hhi : a < fa + size) (hk : k < 4096) (hq : 0 ≤ q)
    (hs : (size : Int) = lo + 4096 - fo) :
    (a - fa).toNat + k < size ∧ (q + (a - fa)).toNat + k = q.toNat + ((a - fa).toNat + k) ∧
      fo.toNat + ((a - fa).toNat + k) = o.toNat + k := by
  omega

/-- In one segment, every placed refactor that contains a dirty page's address holds the
page's patched bytes at the page's place in its copy. -/
lemma segment_copies (hw : SingleSegment (dirtyWalk original data Is S) ms δ) {p : Page}
    (hp : p ∈ dirtyWalk original data Is S) :
    ∀ r ∈ placeFrom S (clusterWalk ms (dirtyWalk original data Is S)), r.addr ≤ p.1 →
      p.1 < r.addr + r.size → ∀ k < PAGE_SIZE,
        restoreAll original data S (clusterWalk ms (dirtyWalk original data Is S))
          ((r.patchedOffset + (p.1 - r.addr)).toNat + k) = data (p.2.toNat + k) := by
  obtain ⟨-, -, hc⟩ := restoreAll_spec original _ data S (segment_rangesWithin hw)
  intro r hr hlo hhi k hk
  obtain ⟨r₀, hr₀, hspan⟩ := mem_placeFrom hr
  rw [clusterWalk_eq_greedy ms _ fun p hp => (hw p hp).2] at hr₀
  obtain ⟨g, hg, rfl⟩ := List.mem_map.mp hr₀
  obtain ⟨e1, e2, -⟩ := segment_refactor hw hg
  simp only [Refactor.span, Prod.mk.injEq] at hspan
  obtain ⟨ha, ho, hs⟩ := hspan
  obtain ⟨hf, hl⟩ := group_first_last_mem hg
  have hpage := dirtyWalk_page hp
  have hfp := dirtyWalk_page hf
  have hlp := dirtyWalk_page hl
  rw [PAGE_SIZE_int] at hpage hfp hlp e2
  rw [ha, show g.refactor.addr = g.first.1 from rfl] at hlo hhi ⊢
  obtain ⟨ht, i₁, i₂⟩ := copy_offset_arith (hw p hp).1 (hw _ hf).1 hpage.1 hfp.1 hpage.2.1 hlp.2.1
    hlo hhi hk (patchedOffset_nonneg hr) (by rw [hs]; exact e2)
  rw [i₁, hc r hr _ ht, ho, e1, i₂]

/-- In one segment, the refactor pass re-installs every patched page at its own address: the
image below `S` is the original, the refactors are placed from `S` on and the growth is their
total size, and every refactor whose addresses contain a dirty page's address holds that
page's patched bytes at the matching place. -/
theorem emitRefactoredPatch_reinstalls_segment (original data : Mem) (S ms : Nat) (Is : InstrSet)
    (δ : Int) (hS : S % PAGE_SIZE = 0) (hS63 : S < 2 ^ 63) (hA : AssertionsHold original data Is S)
    (hw : SingleSegment (dirtyWalk original data Is S) ms δ) :
    ∃ data' g rs, emitRefactoredPatch false original data S ms Is = .ok (data', g, rs) ∧
      (∀ i < S, data' i = original i) ∧
      (∃ rs₀, rs = placeFrom S rs₀ ∧ g = totalSize rs₀) ∧
      ∀ p ∈ dirtyWalk original data Is S,
        (∃ r ∈ rs, r.addr ≤ p.1 ∧ p.1 < r.addr + r.size) ∧
        ∀ r ∈ rs, r.addr ≤ p.1 → p.1 < r.addr + r.size → ∀ k < PAGE_SIZE,
          data' ((r.patchedOffset + (p.1 - r.addr)).toNat + k) = data (p.2.toNat + k) :=
  ⟨_, _, _, emitRefactoredPatch_eq original data S ms Is hS hA, segment_restores hS hS63 hA hw,
    ⟨_, rfl, rfl⟩, fun _ hp => ⟨segment_covers hw hp, segment_copies hw hp⟩⟩

/-- In one segment, the refactors' original ranges are disjoint, in increasing order and
inside the image, so the growth is at most the image size. -/
theorem emitRefactoredPatch_within_segment (original data : Mem) (S ms : Nat) (Is : InstrSet)
    (δ : Int) (hS : S % PAGE_SIZE = 0) (hA : AssertionsHold original data Is S)
    (hw : SingleSegment (dirtyWalk original data Is S) ms δ) :
    ∃ data' g rs, emitRefactoredPatch false original data S ms Is = .ok (data', g, rs) ∧
      (∀ r ∈ rs, 0 ≤ r.originalOffset ∧ r.originalOffset + (r.size : Int) ≤ S) ∧
      rs.Pairwise (fun a b => a.originalOffset + (a.size : Int) ≤ b.originalOffset) ∧ g ≤ S := by
  obtain ⟨hin, hs⟩ := segment_sorted hw
  refine ⟨_, _, _, emitRefactoredPatch_eq original data S ms Is hS hA, fun r hr => ?_,
    placeFrom_sorted hs, ?_⟩
  · obtain ⟨r₀, hr₀, hspan⟩ := mem_placeFrom hr
    simp only [Refactor.span, Prod.mk.injEq] at hspan
    rw [hspan.2.1, hspan.2.2]
    exact hin r₀ hr₀
  · have := totalSize_le_of_sorted _ 0 S (fun r hr => hin r hr) hs (Int.natCast_nonneg S)
    omega

end Segment

lemma twoPage_segment : SingleSegment (dirtyWalk (fun _ => 0) (fun _ => 1) twoPageIs 8192) 0 0 := by
  unfold SingleSegment
  rw [twoPage_walk]
  decide

/-- The re-installation theorem on two adjacent dirty pages of one segment. -/
theorem emitRefactoredPatch_reinstalls_two_pages :
    8192 % PAGE_SIZE = 0 ∧ 8192 < 2 ^ 63 ∧ AssertionsHold (fun _ => 0) (fun _ => 1) twoPageIs 8192 ∧
      SingleSegment (dirtyWalk (fun _ => 0) (fun _ => 1) twoPageIs 8192) 0 0 ∧
      ∃ data' g rs, emitRefactoredPatch false (fun _ => 0) (fun _ => 1) 8192 0 twoPageIs =
          .ok (data', g, rs) ∧
        (∀ i < 8192, data' i = 0) ∧
        (∃ rs₀, rs = placeFrom 8192 rs₀ ∧ g = totalSize rs₀) ∧
        ∀ p ∈ dirtyWalk (fun _ => 0) (fun _ => 1) twoPageIs 8192,
          (∃ r ∈ rs, r.addr ≤ p.1 ∧ p.1 < r.addr + r.size) ∧
          ∀ r ∈ rs, r.addr ≤ p.1 → p.1 < r.addr + r.size → ∀ k < PAGE_SIZE,
            data' ((r.patchedOffset + (p.1 - r.addr)).toNat + k) = 1 :=
  ⟨by decide, by decide, twoPage_assertions, twoPage_segment,
    emitRefactoredPatch_reinstalls_segment _ _ _ _ _ 0 (by decide) (by decide) twoPage_assertions
      twoPage_segment⟩

/-- The bounds theorem on two adjacent dirty pages of one segment. -/
theorem emitRefactoredPatch_within_two_pages :
    8192 % PAGE_SIZE = 0 ∧ AssertionsHold (fun _ => 0) (fun _ => 1) twoPageIs 8192 ∧
      SingleSegment (dirtyWalk (fun _ => 0) (fun _ => 1) twoPageIs 8192) 0 0 ∧
      ∃ data' g rs, emitRefactoredPatch false (fun _ => 0) (fun _ => 1) 8192 0 twoPageIs =
          .ok (data', g, rs) ∧
        (∀ r ∈ rs, 0 ≤ r.originalOffset ∧ r.originalOffset + (r.size : Int) ≤ 8192) ∧
        rs.Pairwise (fun a b => a.originalOffset + (a.size : Int) ≤ b.originalOffset) ∧ g ≤ 8192 :=
  ⟨by decide, twoPage_assertions, twoPage_segment,
    emitRefactoredPatch_within_segment _ _ _ _ _ 0 (by decide) twoPage_assertions twoPage_segment⟩

/-! ### A cluster across two segments -/

/-- An image whose pages at file offsets `0` and `0x2000` differ from an all-zero original. -/
def gapImage : Mem := fun i => if i = 0 ∨ i = 0x2000 then 1 else 0

/-- The two patched instructions of `gapImage`, in segments mapped at `0x400000` (file
offset `0`) and at `0x401000` (file offset `0x2000`). -/
def gapIs : InstrSet := ⟨[⟨0x400000, 0⟩, ⟨0x401000, 0x2000⟩], by decide⟩

lemma gap_pageOffsets : pageOffsets 0x3000 = [0, 0x1000, 0x2000] := by decide

lemma gap_walk : dirtyWalk (fun _ => 0) gapImage gapIs 0x3000 = [(0x400000, 0), (0x401000, 0x2000)] := by
  have h0 : pageSame (fun _ => 0) gapImage 0 = false := pageSame_of_ne (k := 0) (by decide) (by decide)
  have h2 : pageSame (fun _ => 0) gapImage 0x2000 = false :=
    pageSame_of_ne (k := 0) (by decide) (by decide)
  have h1 : pageSame (fun _ => 0) gapImage 0x1000 = true := pageSame_iff.mpr fun k hk => by
    simp only [gapImage, PAGE_SIZE] at hk ⊢
    rw [if_neg (by omega)]
  rw [dirtyWalk, gap_pageOffsets, List.filterMap_cons_some (by rw [walkPage_dirty h0]; rfl),
    List.filterMap_cons_none (walkPage_clean h1), List.filterMap_cons_some (by rw [walkPage_dirty h2]; rfl),
    List.filterMap_nil]
  decide

lemma gap_assertions : AssertionsHold (fun _ => 0) gapImage gapIs 0x3000 := by
  intro o ho hd
  simp only [gap_pageOffsets, List.mem_cons, List.mem_singleton, List.not_mem_nil, or_false] at ho
  rcases ho with rfl | rfl | rfl
  · exact ⟨⟨0x400000, 0⟩, by decide, by decide⟩
  · exact absurd hd (by rw [pageSame_iff.mpr fun k hk => by
      simp only [gapImage, PAGE_SIZE] at hk ⊢; rw [if_neg (by omega)]]; decide)
  · exact ⟨⟨0x401000, 0x2000⟩, by decide, by decide⟩

/-- One refactor is made of the pages at `0x400000` and `0x401000`; it restores and copies the
file range `[0, 0x2000)`, so the dirty page at file offset `0x2000` keeps its patched byte, and
the copy mapped at `0x401000` holds the clean page at `0x1000` instead of it. -/
theorem emitRefactoredPatch_skips_far_page :
    ∃ data', emitRefactoredPatch false (fun _ => 0) gapImage 0x3000 0 gapIs =
        .ok (data', 0x2000, [⟨0x400000, 0x2000, 0, 0x3000⟩]) ∧
      data' 0x2000 = 1 ∧ data' (0x3000 + (0x401000 - 0x400000)) = 0 := by
  have hc : clusterWalk 0 [(0x400000, 0), (0x401000, 0x2000)] = [⟨0x400000, 0x2000, 0, 0⟩] := by
    decide
  rw [emitRefactoredPatch_eq _ _ _ _ _ (by decide) gap_assertions, gap_walk, hc]
  exact ⟨_, rfl, by decide, by decide⟩

/-- An all-dirty image of two pages whose instructions are mapped at `0x400000` and
`0x402000`. -/
def stretchIs : InstrSet := ⟨[⟨0x400000, 0⟩, ⟨0x402000, 0x1000⟩], by decide⟩

/-- With `mapping_size = 0x1000` the two pages form one refactor of `0x3000` bytes: its
original range `[0, 0x3000)` runs past the `0x2000`-byte image and the growth exceeds it. -/
theorem emitRefactoredPatch_overruns_image :
    ∃ data', emitRefactoredPatch false (fun _ => 0) (fun _ => 1) 0x2000 0x1000 stretchIs =
        .ok (data', 0x3000, [⟨0x400000, 0x3000, 0, 0x2000⟩]) := by
  have hd : ∀ o, pageSame (fun _ => 0) (fun _ => 1) o = false := fun _ =>
    pageSame_of_ne (k := 0) (by decide) (by decide)
  have hp : pageOffsets 0x2000 = [0, 0x1000] := by decide
  have hw : dirtyWalk (fun _ => 0) (fun _ => 1) stretchIs 0x2000 =
      [(0x400000, 0), (0x402000, 0x1000)] := by
    simp only [dirtyWalk, hp, List.filterMap_cons, List.filterMap_nil, walkPage_dirty (hd _)]
    decide
  have hA : AssertionsHold (fun _ => 0) (fun _ => 1) stretchIs 0x2000 := by
    intro o ho _
    simp only [hp, List.mem_cons, List.mem_singleton, List.not_mem_nil, or_false] at ho
    rcases ho with rfl | rfl
    · exact ⟨⟨0x400000, 0⟩, by decide, by decide⟩
    · exact ⟨⟨0x402000, 0x1000⟩, by decide, by decide⟩
  have hc : clusterWalk 0x1000 [(0x400000, 0), (0x402000, 0x1000)] = [⟨0x400000, 0x3000, 0, 0⟩] := by
    decide
  rw [emitRefactoredPatch_eq _ _ _ _ _ (by decide) hA, hw, hc]
  exact ⟨_, rfl⟩

end E9Patch
