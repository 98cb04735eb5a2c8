import E9Patch.Clustering

/-!
# Step #2 and the whole planner

Step #2 gives the refactors consecutive patched offsets from the page-aligned size on,
appends each one's bytes there and restores its original range. With step #1 this gives one
equation for `emitRefactoredPatch`, which every later statement about it starts from.
-/

namespace E9Patch

/-- The refactors with patched offsets assigned consecutively from `size`. -/
def placeFrom (size : Nat) : List Refactor → List Refactor
  | [] => []
  | r :: rs => { r with patchedOffset := size } :: placeFrom (size + r.size) rs

def totalSize (rs : List Refactor) : Nat := (rs.map Refactor.size).sum

def restoreAll (original data : Mem) (size : Nat) (rs : List Refactor) : Mem :=
  (rs.foldl (copyRefactor original) (data, size, [])).1

@[simp] lemma totalSize_nil : totalSize [] = 0 := rfl

@[simp] lemma totalSize_cons (r : Refactor) (rs : List Refactor) :
    totalSize (r :: rs) = r.size + totalSize rs := by
  simp [totalSize]

lemma placeFrom_span (size : Nat) (rs : List Refactor) :
    (placeFrom size rs).map Refactor.span = rs.map Refactor.span := by
  induction rs generalizing size with
  | nil => rfl
  | cons r rs ih => simp [placeFrom, ih, Refactor.span]

lemma mem_placeFrom {size : Nat} {rs : List Refactor} {q : Refactor} (h : q ∈ placeFrom size rs) :
    ∃ r ∈ rs, q.span = r.span := by
  induction rs generalizing size with
  | nil => simp [placeFrom] at h
  | cons r rs ih =>
    simp only [placeFrom, List.mem_cons] at h
    rcases h with rfl | h
    · exact ⟨r, List.mem_cons_self r rs, rfl⟩
    · obtain ⟨r', hr', e⟩ := ih h
      exact ⟨r', List.mem_cons_of_mem r hr', e⟩

lemma patchedOffset_nonneg {size : Nat} {rs : List Refactor} {q : Refactor}
    (h : q ∈ placeFrom size rs) : 0 ≤ q.patchedOffset := by
  induction rs generalizing size with
  | nil => simp [placeFrom] at h
  | cons r rs ih =>
    simp only [placeFrom, List.mem_cons] at h
    rcases h with rfl | h
    · exact Int.natCast_nonneg size
    · exact ih h

/-- Step #2 puts each copy inside `[size, size + totalSize rs)`. -/
lemma placeFrom_within {size : Nat} {rs : List Refactor} {q : Refactor} (h : q ∈ placeFrom size rs) :
    size ≤ q.patchedOffset ∧ q.patchedOffset + q.size ≤ size + totalSize rs := by
  induction rs generalizing size with
  | nil => simp [placeFrom] at h
  | cons r rs ih =>
    simp only [placeFrom, List.mem_cons, totalSize_cons] at h ⊢
    rcases h with rfl | h
    · dsimp only
      omega
    · have := ih h
      omega

lemma placeFrom_aligned {size : Nat} {rs : List Refactor} (hs : size % PAGE_SIZE = 0)
    (hr : ∀ r ∈ rs, r.size % PAGE_SIZE = 0) {q : Refactor} (h : q ∈ placeFrom size rs) :
    q.patchedOffset % PAGE_SIZE = 0 := by
  induction rs generalizing size with
  | nil => simp [placeFrom] at h
  | cons r rs ih =>
    simp only [placeFrom, List.mem_cons] at h
    rcases h with rfl | h
    · show (size : Int) % PAGE_SIZE = 0
      exact_mod_cast hs
    · refine ih ?_ (fun r' h' => hr r' (List.mem_cons_of_mem _ h')) h
      rw [Nat.add_mod, hs, hr r (List.mem_cons_self _ _), Nat.zero_mod]

lemma foldl_copyRefactor (original : Mem) (rs : List Refactor) (data : Mem) (size : Nat)
    (done : List Refactor) :
    (rs.foldl (copyRefactor original) (data, size, done)).2 =
      (size + totalSize rs, done ++ placeFrom size rs) := by
  induction rs generalizing data size done with
  | nil => simp [placeFrom]
  | cons r rs ih =>
    rw [List.foldl_cons, copyRefactor, ih]
    simp [placeFrom, Nat.add_assoc]

lemma copy_result (original data : Mem) (size : Nat) (rs : List Refactor) :
    ((rs.foldl (copyRefactor original) (data, size, [])).1,
      (rs.foldl (copyRefactor original) (data, size, [])).2.1 - size,
      (rs.foldl (copyRefactor original) (data, size, [])).2.2) =
    (restoreAll original data size rs, totalSize rs, placeFrom size rs) := by
  rw [foldl_copyRefactor, Nat.add_sub_cancel_left, List.nil_append]
  rfl

/-- `emitRefactoredPatch` when the refactoring runs and its assertions hold. -/
theorem emitRefactoredPatch_eq (original data : Mem) (size ms : Nat) (Is : InstrSet)
    (hS : size % PAGE_SIZE = 0) (hA : AssertionsHold original data Is size) :
    emitRefactoredPatch false original data size ms Is =
      .ok (restoreAll original data size (clusterWalk ms (dirtyWalk original data Is size)),
        totalSize (clusterWalk ms (dirtyWalk original data Is size)),
        placeFrom size (clusterWalk ms (dirtyWalk original data Is size))) := by
  simp only [emitRefactoredPatch, hS, ne_eq, not_true_eq_false, if_false, Bool.false_eq_true,
    foldlM_findStep _ _ hA]
  exact congrArg Except.ok (copy_result original data size _)

/-- Step #1 clusters the walk greedily: for a page-aligned size whose assertions hold, and a
walk of non-negative page addresses `v` with `v + PAGE_SIZE + mapping_size < 2 ^ 63`, the
refactors are one per group of the greedy split, in walk order, each with its group's first
page and the bytes up to the end of its last page. -/
theorem emitRefactoredPatch_greedy (original data : Mem) (S ms : Nat) (Is : InstrSet)
    (hS : S % PAGE_SIZE = 0) (hA : AssertionsHold original data Is S)
    (hw : ∀ p ∈ dirtyWalk original data Is S, 0 ≤ p.1 ∧ p.1 + PAGE_SIZE + ms < 2 ^ 63) :
    ∃ data' g rs, emitRefactoredPatch false original data S ms Is = .ok (data', g, rs) ∧
      rs.map Refactor.span =
        (greedyGroups ms (dirtyWalk original data Is S)).map fun g => g.refactor.span := by
  refine ⟨_, _, _, emitRefactoredPatch_eq original data S ms Is hS hA, ?_⟩
  rw [placeFrom_span, clusterWalk_eq_greedy ms _ hw, List.map_map]
  rfl

/-- An index with one instruction at the start of each of the first two pages. -/
def twoPageIs : InstrSet := ⟨[⟨0, 0⟩, ⟨4096, 4096⟩], by decide⟩

lemma twoPage_walk :
    dirtyWalk (fun _ => 0) (fun _ => 1) twoPageIs 8192 = [(0, 0), (4096, 4096)] := by
  have hd : ∀ o, pageSame (fun _ => 0) (fun _ => 1) o = false := fun _ =>
    pageSame_of_ne (k := 0) (by decide) (by decide)
  simp only [dirtyWalk, show pageOffsets 8192 = [0, 4096] by decide, List.filterMap_cons,
    List.filterMap_nil, walkPage_dirty (hd _)]
  decide

lemma twoPage_assertions : AssertionsHold (fun _ => 0) (fun _ => 1) twoPageIs 8192 := by
  intro o ho _
  simp only [show pageOffsets 8192 = [0, 4096] by decide, List.mem_cons, List.mem_singleton,
    List.not_mem_nil, or_false] at ho
  rcases ho with rfl | rfl
  · exact ⟨⟨0, 0⟩, by decide, by decide⟩
  · exact ⟨⟨4096, 4096⟩, by decide, by decide⟩

/-- The theorem on two adjacent dirty pages with no mapping-size slack. -/
theorem emitRefactoredPatch_greedy_two_pages :
    8192 % PAGE_SIZE = 0 ∧ AssertionsHold (fun _ => 0) (fun _ => 1) twoPageIs 8192 ∧
      (∀ p ∈ dirtyWalk (fun _ => 0) (fun _ => 1) twoPageIs 8192,
        0 ≤ p.1 ∧ p.1 + PAGE_SIZE + 0 < 2 ^ 63) ∧
      ∃ data' g rs, emitRefactoredPatch false (fun _ => 0) (fun _ => 1) 8192 0 twoPageIs =
          .ok (data', g, rs) ∧
        rs.map Refactor.span =
          (greedyGroups 0 (dirtyWalk (fun _ => 0) (fun _ => 1) twoPageIs 8192)).map
            fun g => g.refactor.span := by
  have hw : ∀ p ∈ dirtyWalk (fun _ => 0) (fun _ => 1) twoPageIs 8192,
      0 ≤ p.1 ∧ p.1 + PAGE_SIZE + 0 < 2 ^ 63 := by
    rw [twoPage_walk]
    decide
  exact ⟨by decide, twoPage_assertions, hw,
    emitRefactoredPatch_greedy _ _ _ _ _ (by decide) twoPage_assertions hw⟩

/-- The merge test is evaluated in `intptr_t`: with `mapping_size = 2 ^ 63 - PAGE_SIZE`, two
adjacent dirty pages at addresses `0` and `PAGE_SIZE` become two refactors, while the greedy
split over unbounded integers keeps them in one group. -/
theorem emitRefactoredPatch_wrapped_merge_test :
    ∃ data', emitRefactoredPatch false (fun _ => 0) (fun _ => 1) 8192 (2 ^ 63 - 4096) twoPageIs =
        .ok (data', 8192, [⟨0, 4096, 0, 8192⟩, ⟨4096, 4096, 4096, 12288⟩]) ∧
      greedyGroups (2 ^ 63 - 4096) (dirtyWalk (fun _ => 0) (fun _ => 1) twoPageIs 8192) =
        [⟨(0, 0), (4096, 4096), [(0, 0), (4096, 4096)]⟩] := by
  have hc : clusterWalk (2 ^ 63 - 4096) [(0, 0), (4096, 4096)] =
      [⟨0, 4096, 0, 0⟩, ⟨4096, 4096, 4096, 0⟩] := by decide
  rw [emitRefactoredPatch_eq _ _ _ _ _ (by decide) twoPage_assertions, twoPage_walk, hc]
  exact ⟨_, rfl, by decide⟩

end E9Patch
