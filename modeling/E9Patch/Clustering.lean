import E9Patch.Refactor

/-!
# Step #1 is the greedy split of the dirty-page walk

The walk visits the dirty pages in file order; each carries the page address of its
`lower_bound` instruction. `greedyGroups` states what step #1 is for: the walk is cut into
groups, a page joining the open group when it lies at or after the group's first address and
at most `mapping_size` bytes past the end of the group's most recently added page. The loop's
`(curr_addr, curr_offset, curr_size)` stands for the open group, and one step of the loop is
one step of the split, as long as no 64-bit signed quantity the loop compares wraps.
-/

namespace E9Patch

lemma pageSame_iff {original data : Mem} {o : Nat} :
    pageSame original data o = true ↔ ∀ k < PAGE_SIZE, original (o + k) = data (o + k) := by
  simp [pageSame]

lemma pageSame_of_ne {original data : Mem} {o k : Nat} (hk : k < PAGE_SIZE)
    (h : original (o + k) ≠ data (o + k)) : pageSame original data o = false := by
  cases hs : pageSame original data o
  · rfl
  · exact absurd (pageSame_iff.mp hs k hk) h

lemma pageOffsets_of_lt {size : Nat} (h : size < 2 ^ 63) :
    pageOffsets size = (List.range (size / PAGE_SIZE)).map (· * PAGE_SIZE) := by
  rw [pageOffsets, toIntptr_of_lt (by omega) (by omega), Int.toNat_ofNat]

lemma mem_pageOffsets {size o : Nat} (h : o ∈ pageOffsets size) :
    o % PAGE_SIZE = 0 ∧ o + PAGE_SIZE ≤ (toIntptr size).toNat := by
  obtain ⟨k, hk, rfl⟩ := List.mem_map.mp h
  have hk' := List.mem_range.mp hk
  unfold PAGE_SIZE at *
  omega

abbrev Page := Int × Int

/-- The page step #1 sees at offset `o`, if it differs from the original. -/
def walkPage (original data : Mem) (Is : InstrSet) (o : Nat) : Option Page :=
  if pageSame original data o then none else (Is.lowerBound o).map fun I => (pageAddr I, (o : Int))

lemma walkPage_dirty {original data : Mem} {Is : InstrSet} {o : Nat}
    (h : pageSame original data o = false) :
    walkPage original data Is o = (Is.lowerBound o).map fun I => (pageAddr I, (o : Int)) := by
  simp [walkPage, h]

lemma walkPage_clean {original data : Mem} {Is : InstrSet} {o : Nat}
    (h : pageSame original data o = true) : walkPage original data Is o = none := by
  simp [walkPage, h]

def dirtyWalk (original data : Mem) (Is : InstrSet) (size : Nat) : List Page :=
  (pageOffsets size).filterMap (walkPage original data Is)

/-- Step #1's two assertions hold: every dirty page has a `lower_bound` instruction, and that
instruction lies in the page. -/
def AssertionsHold (original data : Mem) (Is : InstrSet) (size : Nat) : Prop :=
  ∀ o ∈ pageOffsets size, pageSame original data o = false →
    ∃ I, Is.lowerBound o = some I ∧ pageOffset I = o

/-- The loop over the dirty pages, with the assertions discharged. -/
def clusterWalk (mapping_size : Nat) (walk : List Page) : List Refactor :=
  flushCluster (walk.foldl (fun s p => clusterPage mapping_size s p.1 p.2) (Cluster.init, []))

/-- When the assertions hold, the loop of step #1 runs the cluster step over the walk. -/
lemma foldlM_findStep {original data : Mem} {ms : Nat} {Is : InstrSet} (offsets : List Nat)
    (s : Cluster × List Refactor)
    (h : ∀ o ∈ offsets, pageSame original data o = false →
      ∃ I, Is.lowerBound o = some I ∧ pageOffset I = o) :
    offsets.foldlM (findStep original data ms Is) s =
      .ok ((offsets.filterMap (walkPage original data Is)).foldl
        (fun s p => clusterPage ms s p.1 p.2) s) := by
  induction offsets generalizing s with
  | nil => rfl
  | cons o os ih =>
    have hrest := fun o' ho' => h o' (List.mem_cons_of_mem o ho')
    cases hs : pageSame original data o
    · obtain ⟨I, hI, hp⟩ := h o (List.mem_cons_self o os) hs
      simp only [List.foldlM_cons, findStep, hs, hI, hp, walkPage, List.filterMap_cons,
        Option.map_some', List.foldl_cons, if_true, Bool.false_eq_true, if_false]
      exact ih _ hrest
    · simp only [List.foldlM_cons, findStep, hs, walkPage, List.filterMap_cons, if_true]
      exact ih s hrest

lemma pageAddr_mod (I : Instr) : pageAddr I % PAGE_SIZE = 0 := by
  unfold pageAddr toIntptr PAGE_SIZE
  rw [Int.bmod_def]
  simp only [Nat.cast_ofNat]
  split <;> omega

lemma mem_dirtyWalk {original data : Mem} {Is : InstrSet} {size : Nat} {p : Page}
    (h : p ∈ dirtyWalk original data Is size) :
    ∃ o ∈ pageOffsets size, p.2 = o ∧ pageSame original data o = false ∧
      ∃ I, Is.lowerBound o = some I ∧ p.1 = pageAddr I := by
  obtain ⟨o, ho, hp⟩ := List.mem_filterMap.mp h
  cases hs : pageSame original data o
  · rw [walkPage_dirty hs] at hp
    obtain ⟨I, hI, rfl⟩ := Option.map_eq_some'.mp hp
    exact ⟨o, ho, rfl, hs, I, hI, rfl⟩
  · rw [walkPage_clean hs] at hp
    cases hp

lemma pageOffsets_sorted (size : Nat) : (pageOffsets size).Pairwise (· < ·) := by
  unfold pageOffsets
  rw [List.pairwise_map]
  exact (List.pairwise_lt_range _).imp fun h => by unfold PAGE_SIZE; omega

lemma dirtyWalk_sorted (original data : Mem) (Is : InstrSet) (size : Nat) :
    (dirtyWalk original data Is size).Pairwise fun a b => a.2 < b.2 := by
  refine (pageOffsets_sorted size).filterMap _ fun a a' h b hb b' hb' => ?_
  unfold walkPage at hb hb'
  split at hb
  · cases hb
  · split at hb'
    · cases hb'
    · obtain ⟨I, -, rfl⟩ := Option.map_eq_some'.mp hb
      obtain ⟨I', -, rfl⟩ := Option.map_eq_some'.mp hb'
      exact Int.ofNat_lt.mpr h

/-! ### The greedy split -/

/-- A group of the split: its first page, its most recently added page, and its pages. -/
structure Group where
  first : Page
  last : Page
  pages : List Page
  deriving DecidableEq, Repr

/-- The split continued from the open group `⟨first, last, cur⟩`. -/
def greedyFrom (ms : Nat) (first last : Page) (cur : List Page) : List Page → List Group
  | [] => [⟨first, last, cur⟩]
  | p :: ps =>
    if first.1 ≤ p.1 ∧ p.1 ≤ last.1 + PAGE_SIZE + ms then greedyFrom ms first p (cur ++ [p]) ps
    else ⟨first, last, cur⟩ :: greedyFrom ms p p [p] ps

def greedyGroups (ms : Nat) : List Page → List Group
  | [] => []
  | p :: ps => greedyFrom ms p p [p] ps

/-- The refactor a group stands for: address and file offset of its first page, and the
bytes up to the end of its most recently added page. -/
def Group.refactor (g : Group) : Refactor :=
  Refactor.new g.first.1 g.first.2 (g.last.1 + PAGE_SIZE - g.first.1).toNat

def Refactor.span (r : Refactor) : Int × Int × Nat := (r.addr, r.originalOffset, r.size)

lemma greedyFrom_pages (ms : Nat) (first last : Page) (cur ps : List Page) :
    (greedyFrom ms first last cur ps).flatMap Group.pages = cur ++ ps := by
  induction ps generalizing first last cur with
  | nil => simp [greedyFrom]
  | cons p ps ih =>
    unfold greedyFrom
    split
    · simp [ih]
    · simp [ih]

theorem greedyGroups_pages (ms : Nat) (ps : List Page) :
    (greedyGroups ms ps).flatMap Group.pages = ps := by
  cases ps with
  | nil => rfl
  | cons p ps => simp [greedyGroups, greedyFrom_pages]

lemma greedyFrom_ends (ms : Nat) (first last : Page) (cur ps : List Page)
    (hc : cur.head? = some first ∧ cur.getLast? = some last) :
    ∀ g ∈ greedyFrom ms first last cur ps,
      g.pages.head? = some g.first ∧ g.pages.getLast? = some g.last := by
  induction ps generalizing first last cur with
  | nil => simpa [greedyFrom] using hc
  | cons p ps ih =>
    unfold greedyFrom
    split
    · refine ih first p _ ⟨?_, by simp⟩
      cases cur <;> simp_all
    · intro g hg
      rcases List.mem_cons.mp hg with rfl | hg
      · exact hc
      · exact ih p p [p] (by simp) g hg

theorem greedyGroups_ends (ms : Nat) (ps : List Page) :
    ∀ g ∈ greedyGroups ms ps, g.pages.head? = some g.first ∧ g.pages.getLast? = some g.last := by
  cases ps with
  | nil => simp [greedyGroups]
  | cons p ps => exact greedyFrom_ends ms p p [p] ps (by simp)

/-- On a walk sorted by file offset, each group's pages lie between its first and its last
page, and the groups follow one another. -/
theorem greedyGroups_sorted (ms : Nat) (ps : List Page) (h : ps.Pairwise fun a b => a.2 < b.2) :
    (∀ g ∈ greedyGroups ms ps, ∀ p ∈ g.pages, g.first.2 ≤ p.2 ∧ p.2 ≤ g.last.2) ∧
      (greedyGroups ms ps).Pairwise fun g g' => g.last.2 < g'.first.2 := by
  rw [← greedyGroups_pages ms ps, List.pairwise_flatMap] at h
  have ends := greedyGroups_ends ms ps
  refine ⟨fun g hg p hp => ?_, h.2.imp_of_mem fun {g g'} hg hg' hgg => ?_⟩
  · obtain ⟨hh, hl⟩ := ends g hg
    obtain ⟨rest, hr⟩ := List.head?_eq_some_iff.mp hh
    obtain ⟨init, hi⟩ := List.getLast?_eq_some_iff.mp hl
    have hs := h.1 g hg
    constructor
    · rw [hr] at hs hp
      rcases List.mem_cons.mp hp with rfl | hp
      · exact Int.le_refl _
      · exact Int.le_of_lt ((List.pairwise_cons.mp hs).1 p hp)
    · rw [hi] at hs hp
      rcases List.mem_append.mp hp with hp | hp
      · exact Int.le_of_lt ((List.pairwise_append.mp hs).2.2 p hp g.last (List.mem_singleton_self _))
      · rw [List.mem_singleton.mp hp]
  · exact hgg g.last (List.mem_of_mem_getLast? (ends g hg).2) g'.first
      (List.mem_of_mem_head? (ends g' hg').1)

/-! ### The loop simulates the split -/

/-- The cluster that stands for the open group from `first` to `last`. -/
def clusterOf (first last : Page) : Cluster :=
  ⟨first.1, first.2, (last.1 + PAGE_SIZE - first.1).toNat⟩

lemma flushCluster_clusterOf {first last : Page} (rs : List Refactor) (h : 0 ≤ first.1) :
    flushCluster (clusterOf first last, rs) =
      rs ++ [Refactor.new first.1 first.2 (last.1 + PAGE_SIZE - first.1).toNat] := by
  simp [flushCluster, clusterOf, h]

/-- The loop's merge test is the split's join test while `last + PAGE_SIZE + mapping_size`
does not wrap. -/
lemma clusterPage_clusterOf {ms : Nat} {first last p : Page} (rs : List Refactor)
    (h0 : 0 ≤ first.1) (h1 : first.1 ≤ last.1) (hl : last.1 + PAGE_SIZE + ms < 2 ^ 63) :
    clusterPage ms (clusterOf first last, rs) p.1 p.2 =
      if first.1 ≤ p.1 ∧ p.1 ≤ last.1 + PAGE_SIZE + ms then (clusterOf first p, rs)
      else (clusterOf p p, rs ++ [Refactor.new first.1 first.2 (last.1 + PAGE_SIZE - first.1).toNat]) := by
  have hP : (PAGE_SIZE : Int) = 4096 := rfl
  have hsize : (((last.1 + PAGE_SIZE - first.1).toNat : Nat) : Int) = last.1 + PAGE_SIZE - first.1 :=
    Int.toNat_of_nonneg (by omega)
  have hw : toIntptr (first.1 + ((last.1 + PAGE_SIZE - first.1).toNat : Nat) + ms) =
      last.1 + PAGE_SIZE + ms := by
    rw [hsize, show first.1 + (last.1 + PAGE_SIZE - first.1) + ms = last.1 + PAGE_SIZE + ms by omega]
    apply toIntptr_of_lt <;> omega
  simp only [clusterPage, clusterOf, hw]
  by_cases hj : first.1 ≤ p.1 ∧ p.1 ≤ last.1 + PAGE_SIZE + ms
  · rw [if_neg (by omega), if_pos hj]
    have harg : (((last.1 + PAGE_SIZE - first.1).toNat : Nat) : Int) +
        ((p.1 + PAGE_SIZE) - (first.1 + ((last.1 + PAGE_SIZE - first.1).toNat : Nat))) =
        p.1 + PAGE_SIZE - first.1 := by omega
    have hs := u64_of_lt (n := p.1 + PAGE_SIZE - first.1) (by omega) (by omega)
    rw [harg]
    congr
    omega
  · rw [if_pos (by omega), if_neg hj, if_pos h0]
    congr
    omega

/-- The simulation: from a cluster standing for an open group, the rest of the loop and the
final push produce the refactors of the rest of the split. -/
lemma flush_foldl_clusterPage (ms : Nat) (ps : List Page) (first last : Page) (cur : List Page)
    (rs : List Refactor) (h0 : 0 ≤ first.1) (h1 : first.1 ≤ last.1)
    (hl : last.1 + PAGE_SIZE + ms < 2 ^ 63)
    (hps : ∀ p ∈ ps, 0 ≤ p.1 ∧ p.1 + PAGE_SIZE + ms < 2 ^ 63) :
    flushCluster (ps.foldl (fun s p => clusterPage ms s p.1 p.2) (clusterOf first last, rs)) =
      rs ++ (greedyFrom ms first last cur ps).map Group.refactor := by
  induction ps generalizing first last cur rs with
  | nil => simp [greedyFrom, flushCluster_clusterOf rs h0, Group.refactor]
  | cons p ps ih =>
    have hp := hps p (List.mem_cons_self p ps)
    have hrest := fun q hq => hps q (List.mem_cons_of_mem p hq)
    rw [List.foldl_cons, clusterPage_clusterOf rs h0 h1 hl, greedyFrom]
    split
    · next hj => exact ih first p (cur ++ [p]) rs h0 hj.1 hp.2 hrest
    · rw [ih p p [p] _ hp.1 (Int.le_refl _) hp.2 hrest]
      simp [Group.refactor]

/-- The loop over a walk of non-negative page addresses whose ends plus `mapping_size` stay
below `2 ^ 63` yields one refactor per group of the greedy split, in order. -/
theorem clusterWalk_eq_greedy (ms : Nat) (walk : List Page)
    (hw : ∀ p ∈ walk, 0 ≤ p.1 ∧ p.1 + PAGE_SIZE + ms < 2 ^ 63) :
    clusterWalk ms walk = (greedyGroups ms walk).map Group.refactor := by
  cases walk with
  | nil => rfl
  | cons p ps =>
    have hp := hw p (List.mem_cons_self p ps)
    have hP : (PAGE_SIZE : Int) = 4096 := rfl
    have hfirst : clusterPage ms (Cluster.init, []) p.1 p.2 = (clusterOf p p, []) := by
      simp only [clusterPage, Cluster.init, clusterOf, INTPTR_MIN]
      rw [if_pos (by omega), if_neg (by omega)]
      congr
      omega
    rw [clusterWalk, List.foldl_cons, hfirst,
      flush_foldl_clusterPage ms ps p p [p] [] hp.1 (Int.le_refl _) hp.2
        (fun q hq => hw q (List.mem_cons_of_mem p hq))]
    rfl

end E9Patch
