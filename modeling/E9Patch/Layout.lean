import E9Patch.Output

/-!
# The loader region describes itself

A buffer that holds `loaderRegion` at `co`, but maybe for the fields step (5) stores, reads
back as the region says: the config record gives the offsets and counts of the init table
and of the two mapping tables, the tables hold the inits and one record per call in the
order of the loops, and the entry shim follows the last record, its `lea` pointing back at
the record (`regionFields`, `regionBytes`, `regionRecords`, `regionLea`).
-/

namespace E9Patch

/-- `m` holds `R` at `co`, but maybe for the fields of the record step (5) stores. -/
def HoldsRegion (m : Mem) (co : Nat) (R : List UInt8) : Prop :=
  ∀ k (hk : k < R.length), ¬RewiredField k → m (co + k) = R[k]

instance : DecidablePred RewiredField := fun _ => inferInstanceAs (Decidable (_ ∨ _ ∨ _))

lemma not_rewiredField_of_le {k : Nat} (h : CONFIG_SIZE + 8 ≤ k) : ¬RewiredField k := by
  simp only [RewiredField, Config.flags, Config.entry, CONFIG_SIZE] at h ⊢
  omega

@[simp] lemma E9Map.bytes_length (e : E9Map) : e.bytes.length = E9_MAP_SIZE := by
  simp [E9Map.bytes, E9_MAP_SIZE]

section Read

variable {m : Mem} {co : Nat} {R : List UInt8} (hR : HoldsRegion m co R)
include hR

lemma HoldsRegion.readLE {o w : Nat} (hw : o + w ≤ R.length) (hf : ∀ k < w, ¬RewiredField (o + k)) :
    m.readLE (co + o) w = (Mem.write (fun _ => 0) co R).readLE (co + o) w :=
  Mem.readLE_congr fun k hk => by rw [Nat.add_assoc, hR _ (by omega) (hf k hk), Mem.write_add]

lemma HoldsRegion.bytesAt {o n : Nat} (hn : o + n ≤ R.length) (hf : ∀ k < n, ¬RewiredField (o + k)) :
    m.bytesAt (co + o) n = (R.drop o).take n := by
  refine List.ext_getElem (by simp [Mem.bytesAt]; omega) fun k hk _ => ?_
  simp only [Mem.bytesAt, List.length_map, List.length_range] at hk
  simp only [Mem.bytesAt, List.getElem_map, List.getElem_range, List.getElem_take, List.getElem_drop]
  rw [Nat.add_assoc, hR _ (by omega) (hf k hk)]

/-- A record the region holds after the extension's `dynamic` reads back as itself. -/
lemma HoldsRegion.read_at {pre post : List UInt8} {e : E9Map} (h : R = pre ++ e.bytes ++ post)
    (ho : CONFIG_SIZE + 8 ≤ pre.length) : E9Map.read m (co + pre.length) = e := by
  have hlen : pre.length + E9_MAP_SIZE ≤ R.length := by simp [h]
  rw [← E9Map.read_write (fun _ => 0) co pre e post, ← h]
  exact E9Map.read_congr fun k hk => by
    rw [Nat.add_assoc, hR _ (by omega) (not_rewiredField_of_le (by omega)), Mem.write_add]

/-- Record `k` of a table the region holds after `pre` is the record of call `k`. -/
lemma HoldsRegion.read_call (sp : AddressSpace) {pre post : List UInt8} {calls : List MapCall}
    (h : R = pre ++ callsBytes sp calls ++ post) (ho : CONFIG_SIZE + 8 ≤ pre.length) {k : Nat}
    (hk : k < calls.length) :
    E9Map.read m (co + (pre.length + E9_MAP_SIZE * k)) = calls[k].record sp := by
  have e : R = (pre ++ callsBytes sp (calls.take k)) ++ (calls[k].record sp).bytes ++
      (callsBytes sp (calls.drop (k + 1)) ++ post) := by
    rw [h, callsBytes, flatMap_split _ _ hk, ← MapCall.bytes_eq_record]
    simp only [callsBytes, List.append_assoc]
  have hpre : (pre ++ callsBytes sp (calls.take k)).length = pre.length + E9_MAP_SIZE * k := by
    simp [Nat.min_eq_left hk.le]
  rw [← hpre]
  exact hR.read_at e (by rw [hpre]; omega)

end Read

/-! ### The parts of the region -/

section Parts

variable (sp : AddressSpace) (opts : Options) (loader : Loader) (B : Binary)
  (heads : List (Mapping × Nat)) (rs : List Refactor)

lemma shimOffset_eq : shimOffset sp loader B heads rs = CONFIG_SIZE + loader.CONFIG_ELF_SIZE +
    8 * B.inits.length + E9_MAP_SIZE * (tableCalls true heads).length +
      E9_MAP_SIZE * (postloadCalls heads rs).length := by
  simp only [shimOffset, loaderTables, List.length_append, initBytes_length, callsBytes_length]
  omega

lemma loaderRegion_length : (loaderRegion sp opts loader B heads rs).length =
    shimOffset sp loader B heads rs +
      (shimBytes opts B.mode loader.bin (shimOffset sp loader B heads rs)).length := by
  simp only [loaderRegion, List.length_append, ConfigValues.bytes_length, List.length_replicate,
    shimOffset]
  omega

abbrev regionRecord : ConfigValues :=
  regionConfig loader.CONFIG_ELF_SIZE (u64 opts.option_loader_base) (mmapValue B) B.inits.length
    (tableCalls true heads).length (postloadCalls heads rs).length
    (loaderRegion sp opts loader B heads rs).length

lemma loaderRegion_eq : loaderRegion sp opts loader B heads rs =
    (regionRecord sp opts loader B heads rs).fields.bytes ++
      (List.replicate loader.CONFIG_ELF_SIZE 0 ++ loaderTables sp B heads rs ++
        shimBytes opts B.mode loader.bin (shimOffset sp loader B heads rs)) := by
  rw [regionRecord, loaderRegion_length]
  rfl

/-- A `uint32_t` field of the record, but `flags`, reads back as a run leaves it. -/
lemma regionField {m : Mem} {co : Nat} (hR : HoldsRegion m co (loaderRegion sp opts loader B heads rs))
    (f : ConfigField) (hf : f.width = 4) (hflags : f ≠ .flags) :
    m.readLE (f.addr co) 4 = regionRecord sp opts loader B heads rs f % 2 ^ 32 := by
  have hlen : CONFIG_SIZE ≤ (loaderRegion sp opts loader B heads rs).length := by
    rw [loaderRegion_length, shimOffset]
    omega
  obtain ⟨o, ho, hb, hr⟩ : ∃ o, f.addr co = co + o ∧ o + 4 ≤ CONFIG_SIZE ∧
      ∀ k < 4, ¬RewiredField (o + k) := by
    cases f with
    | flags => exact absurd rfl hflags
    | base | entry | mmap => exact absurd hf (by decide)
    | numMaps i | maps i => fin_cases i <;> exact ⟨_, Nat.add_assoc _ _ _, by decide, by decide⟩
    | _ => exact ⟨_, rfl, by decide, by decide⟩
  rw [ho, hR.readLE (by omega) hr, ← ho, loaderRegion_eq, ConfigValues.read _ _ _ _ _ hf]

/-- The record's fields as a run leaves them, the counters cut to 32 bits. -/
lemma regionFields {m : Mem} {co : Nat} (hR : HoldsRegion m co (loaderRegion sp opts loader B heads rs)) :
    m.readLE (co + Config.inits) 4 = (CONFIG_SIZE + loader.CONFIG_ELF_SIZE) % 2 ^ 32 ∧
      m.readLE (co + Config.numInits) 4 = B.inits.length % 2 ^ 32 ∧
      m.readLE (co + Config.maps) 4 =
        (CONFIG_SIZE + loader.CONFIG_ELF_SIZE + 8 * B.inits.length) % 2 ^ 32 ∧
      m.readLE (co + Config.numMaps) 4 = (tableCalls true heads).length % 2 ^ 32 ∧
      m.readLE (co + Config.maps + 4) 4 = (CONFIG_SIZE + loader.CONFIG_ELF_SIZE +
        8 * B.inits.length + E9_MAP_SIZE * (tableCalls true heads).length) % 2 ^ 32 ∧
      m.readLE (co + Config.numMaps + 4) 4 = (postloadCalls heads rs).length % 2 ^ 32 ∧
      m.readLE (co + Config.size) 4 =
        pageRoundUp (loaderRegion sp opts loader B heads rs).length % 2 ^ 32 := by
  have hr := regionField sp opts loader B heads rs hR
  exact ⟨(hr .inits rfl nofun).trans (Nat.mod_mod _ _), (hr .numInits rfl nofun).trans (Nat.mod_mod _ _),
    (hr (.maps 0) rfl nofun).trans (Nat.mod_mod _ _), (hr (.numMaps 0) rfl nofun).trans (Nat.mod_mod _ _),
    (hr (.maps 1) rfl nofun).trans (Nat.mod_mod _ _), (hr (.numMaps 1) rfl nofun).trans (Nat.mod_mod _ _),
    (hr .size rfl nofun).trans (Nat.mod_mod _ _)⟩

/-- The mapping tables of the region, read back: record `k` of each is the record of call
`k` of its pass. -/
lemma regionRecords {m : Mem} {co : Nat} (hR : HoldsRegion m co (loaderRegion sp opts loader B heads rs)) :
    (∀ k (hk : k < (tableCalls true heads).length),
      E9Map.read m (co + (CONFIG_SIZE + loader.CONFIG_ELF_SIZE + 8 * B.inits.length + E9_MAP_SIZE * k)) =
        (tableCalls true heads)[k].record sp) ∧
    ∀ k (hk : k < (postloadCalls heads rs).length),
      E9Map.read m (co + (CONFIG_SIZE + loader.CONFIG_ELF_SIZE + 8 * B.inits.length +
          E9_MAP_SIZE * (tableCalls true heads).length + E9_MAP_SIZE * k)) =
        (postloadCalls heads rs)[k].record sp := by
  have hE := loader.dynamic_le
  -- both tables sit after the record, its extension and the init table
  have e : loaderRegion sp opts loader B heads rs =
      ((regionRecord sp opts loader B heads rs).fields.bytes ++
        (List.replicate loader.CONFIG_ELF_SIZE 0 ++ initBytes B.inits)) ++
        callsBytes sp (tableCalls true heads) ++ callsBytes sp (postloadCalls heads rs) ++
          shimBytes opts B.mode loader.bin (shimOffset sp loader B heads rs) := by
    rw [loaderRegion_eq, loaderTables]
    simp only [List.append_assoc]
  have hP : ((regionRecord sp opts loader B heads rs).fields.bytes ++
      (List.replicate loader.CONFIG_ELF_SIZE 0 ++ initBytes B.inits)).length =
        CONFIG_SIZE + loader.CONFIG_ELF_SIZE + 8 * B.inits.length := by
    simp only [List.length_append, ConfigValues.bytes_length, List.length_replicate,
      initBytes_length, Nat.add_assoc]
  refine ⟨fun k hk => ?_, fun k hk => ?_⟩
  · simpa only [hP] using hR.read_call sp (e.trans (List.append_assoc _ _ _)) (by omega) hk
  · simpa only [List.length_append, hP, callsBytes_length] using
      hR.read_call sp e (by rw [List.length_append, hP]; omega) hk

end Parts

end E9Patch
