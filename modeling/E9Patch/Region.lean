import E9Patch.Emit

/-!
# The loader region

Step (4) of `emitElf` fills the loader region from `config_offset` on. The spec lays it
out as the config record and its ELF extension, the init table, the preload and postload
mapping tables, the entry shim and the loader blob; `loaderRegion` builds those bytes from
the values the step computes. Over a buffer that is zero from `config_offset` on, the step
writes exactly `loaderRegion` there and nothing else (`emitLoader_region`).

The config record's counters are incremented in place while the tables grow, so every loop
lemma below keeps the region in the form `m.write config_offset (c.fields.bytes ++ body)`:
the record `c` is updated field by field and `body` grows at its end.
-/

namespace E9Patch

/-- The fields of `struct e9_config_s` that step (4) stores or reads back. -/
inductive ConfigField where
  | flags
  | size
  | base
  | entry
  | mmap
  | numMaps (i : Fin 2)
  | maps (i : Fin 2)
  | numInits
  | inits
  deriving DecidableEq

namespace ConfigField

/-- The address of the field of the record at `p`, as `emitElf` computes it. -/
@[reducible] def addr (p : Nat) : ConfigField → Nat
  | flags => p + Config.flags
  | size => p + Config.size
  | base => p + Config.base
  | entry => p + Config.entry
  | mmap => p + Config.mmap
  | numMaps i => p + Config.numMaps + 4 * i
  | maps i => p + Config.maps + 4 * i
  | numInits => p + Config.numInits
  | inits => p + Config.inits

@[reducible] def width : ConfigField → Nat
  | base | entry | mmap => 8
  | _ => 4

def index : ConfigField → Nat
  | flags => 1
  | size => 2
  | base => 3
  | entry => 4
  | mmap => 6
  | numMaps i => 7 + i
  | maps i => 9 + i
  | numInits => 11
  | inits => 12

end ConfigField

abbrev ConfigValues := ConfigField → Nat

def E9_MAGIC_VALUE : Nat := 0x0048435441503945

/-- The record as packed fields: `magic`, `flags`, `size`, `base`, `entry`, `dynamic` (never
written), `mmap`, `num_maps[2]`, `maps[2]`, `num_inits`, `inits`. -/
def ConfigValues.fields (c : ConfigValues) : Fields :=
  [(8, E9_MAGIC_VALUE), (4, c .flags), (4, c .size), (8, c .base), (8, c .entry), (8, 0),
    (8, c .mmap), (4, c (.numMaps 0)), (4, c (.numMaps 1)), (4, c (.maps 0)), (4, c (.maps 1)),
    (4, c .numInits), (4, c .inits)]

@[simp] lemma ConfigValues.bytes_length (c : ConfigValues) : c.fields.bytes.length = CONFIG_SIZE := by
  simp [ConfigValues.fields, CONFIG_SIZE]

section Field

variable (c : ConfigValues) (f : ConfigField)

lemma ConfigValues.index_lt : f.index < c.fields.length := by
  have h : c.fields.length = 13 := rfl
  cases f <;> simp only [ConfigField.index, h] <;> omega

lemma ConfigValues.widths : c.fields.map Prod.fst = [8, 4, 4, 8, 8, 8, 8, 4, 4, 4, 4, 4, 4] := rfl

lemma ConfigValues.offset_index (p : Nat) : p + c.fields.offset f.index = f.addr p := by
  rw [Fields.offset, List.map_take, c.widths]
  cases f with
  | numMaps i | maps i => fin_cases i <;> rfl
  | _ => rfl

lemma ConfigValues.getElem_index (h : f.index < c.fields.length) :
    c.fields[f.index] = (f.width, c f) := by
  cases f with
  | numMaps i | maps i => fin_cases i <;> rfl
  | _ => rfl

lemma ConfigValues.fields_update (v : Nat) :
    (ConfigValues.fields (Function.update c f v)) = c.fields.set f.index (f.width, v) := by
  cases f with
  | numMaps i | maps i => fin_cases i <;> rfl
  | _ => rfl

lemma ConfigValues.store (m : Mem) (p : Nat) (body : List UInt8) (v : Nat) :
    (m.write p (c.fields.bytes ++ body)).writeLE (f.addr p) f.width v =
      m.write p ((ConfigValues.fields (Function.update c f v)).bytes ++ body) := by
  have hj := c.index_lt f
  have e := Fields.write_set m p c.fields hj rfl v body
  rwa [c.offset_index, c.getElem_index f hj, ← c.fields_update] at e

lemma ConfigValues.read (m : Mem) (p : Nat) (body : List UInt8) (hf : f.width = 4) :
    (m.write p (c.fields.bytes ++ body)).readLE (f.addr p) 4 = c f % 2 ^ 32 := by
  have hj := c.index_lt f
  have e := Fields.readLE_write m p c.fields hj rfl body
  rw [c.offset_index, c.getElem_index f hj, hf] at e
  exact e

end Field

lemma write_region_append (m : Mem) (p : Nat) (c : ConfigValues) (body more : List UInt8) :
    (m.write p (c.fields.bytes ++ body)).write (p + CONFIG_SIZE + body.length) more =
      m.write p (c.fields.bytes ++ (body ++ more)) := by
  have e : p + CONFIG_SIZE + body.length = p + (c.fields.bytes ++ body).length := by
    simp only [List.length_append, ConfigValues.bytes_length, Nat.add_assoc]
  rw [e, Mem.write_append, List.append_assoc]

lemma Mem.writeLE_four_mod (m : Mem) (pos v : Nat) : m.writeLE pos 4 (v % 2 ^ 32) = m.writeLE pos 4 v := by
  simp only [Mem.writeLE]
  rw [show (2 : Nat) ^ 32 = 256 ^ 4 by norm_num, leBytes_mod]

/-! ### Records -/

/-- The record `emitLoaderMap` stores for the call `c` over zero bytes: the page address,
the page offset, and the page count cut to 16 bits under the four flags. -/
def MapCall.bytes (sp : AddressSpace) (c : MapCall) : List UInt8 :=
  leBytes 4 (u32 ((sp.BASE_ADDRESS c.addr).tdiv PAGE_SIZE)) ++ leBytes 4 (u64 c.offset / PAGE_SIZE) ++
    leBytes 4 (c.len / PAGE_SIZE % 2 ^ 16 +
      2 ^ 28 * (c.r.toNat + 2 * c.w.toNat + 4 * c.x.toNat + 8 * (sp.IS_ABSOLUTE c.addr).toNat))

@[simp] lemma MapCall.bytes_length (sp : AddressSpace) (c : MapCall) :
    (c.bytes sp).length = E9_MAP_SIZE := by
  simp [bytes, E9_MAP_SIZE]

def callsBytes (sp : AddressSpace) (calls : List MapCall) : List UInt8 := calls.flatMap (MapCall.bytes sp)

@[simp] lemma callsBytes_nil (sp : AddressSpace) : callsBytes sp [] = [] := rfl

@[simp] lemma callsBytes_cons (sp : AddressSpace) (c : MapCall) (calls : List MapCall) :
    callsBytes sp (c :: calls) = c.bytes sp ++ callsBytes sp calls := rfl

@[simp] lemma callsBytes_append (sp : AddressSpace) (calls calls' : List MapCall) :
    callsBytes sp (calls ++ calls') = callsBytes sp calls ++ callsBytes sp calls' :=
  List.flatMap_append _ _ _

@[simp] lemma callsBytes_length (sp : AddressSpace) (calls : List MapCall) :
    (callsBytes sp calls).length = E9_MAP_SIZE * calls.length := by
  induction calls with
  | nil => rfl
  | cons c calls ih =>
    rw [callsBytes_cons, List.length_append, ih, MapCall.bytes_length, List.length_cons]
    ring

def MapCall.Fits (sp : AddressSpace) (c : MapCall) : Prop := MapFits sp c.addr c.len c.offset

/-- `*ub` after the call `c`. -/
def ubStep (sp : AddressSpace) (ub : Option Int) (c : MapCall) : Option Int :=
  if sp.IS_ABSOLUTE c.addr then ub else ub.map fun u => max u c.addr

/-- Over zero bytes, a call that raises no error stores the call's record. -/
lemma emitLoaderMap_zero {sp : AddressSpace} {data data' : Mem} {pos n : Nat} {c : MapCall}
    {ub ub' : Option Int} (hz : ∀ k < E9_MAP_SIZE, data (pos + k) = 0)
    (h : emitLoaderMap sp data pos c.addr c.len c.offset c.r c.w c.x ub = .ok (data', n, ub')) :
    data' = data.write pos (c.bytes sp) ∧ n = E9_MAP_SIZE ∧ ub' = ubStep sp ub c ∧ c.Fits sp := by
  obtain ⟨e, he, h1, h2, h3, h4, h5, h6, h7, h8, -⟩ := emitLoaderMap_eq_ok h
  simp only [Prod.mk.injEq] at he
  obtain ⟨rfl, rfl, rfl⟩ := he
  have hres : (E9Map.read data pos).reserved = 0 := by
    have : data.readLE (pos + 8) 4 = 0 := Mem.readLE_eq_zero fun k hk => by
      rw [Nat.add_assoc]
      exact hz (8 + k) (by unfold E9_MAP_SIZE; omega)
    simp only [E9Map.read, this, Nat.zero_div, Nat.zero_mod]
  refine ⟨?_, rfl, rfl, emitLoaderMap_isOk.mp ⟨_, h⟩⟩
  rw [E9Map.store_eq_write, E9Map.bytes, E9Map.word, h1, h2, h3, h4, hres, h5, h6, h7, h8]
  simp [MapCall.bytes]

/-- One record into table `i`, whatever the buffer holds: the cursor moves past the
record, `*ub` takes the call's address, and the call passed the checks. -/
lemma emitRecord_call {sp : AddressSpace} {co i : Nat} {s s' : Mem × Nat × Option Int} {c : MapCall}
    (h : emitRecord sp co i s c = .ok s') :
    s'.2.1 = s.2.1 + E9_MAP_SIZE ∧ s'.2.2 = ubStep sp s.2.2 c ∧ c.Fits sp := by
  obtain ⟨⟨d, n, u⟩, h1, h2⟩ := bind_eq_ok.mp h
  cases h2
  obtain ⟨e, he, -⟩ := emitLoaderMap_eq_ok h1
  simp only [Prod.mk.injEq] at he
  exact ⟨by rw [he.2.1], he.2.2, emitLoaderMap_isOk.mp ⟨_, h1⟩⟩

lemma foldlM_emitRecord_calls {sp : AddressSpace} {co i : Nat} (calls : List MapCall) :
    ∀ {s s' : Mem × Nat × Option Int}, calls.foldlM (emitRecord sp co i) s = .ok s' →
      s'.2.2 = calls.foldl (ubStep sp) s.2.2 ∧ ∀ x ∈ calls, x.Fits sp := by
  induction calls with
  | nil =>
    intro s s' h
    cases h
    exact ⟨rfl, by simp⟩
  | cons x calls ih =>
    intro s s' h
    obtain ⟨s₁, h₁, h₂⟩ := bind_eq_ok.mp h
    obtain ⟨-, hu, hfit⟩ := emitRecord_call h₁
    obtain ⟨e1, e2⟩ := ih h₂
    refine ⟨by rw [e1, hu]; rfl, fun y hy => ?_⟩
    rcases List.mem_cons.mp hy with rfl | hy
    · exact hfit
    · exact e2 y hy

lemma emitRecord_zero {sp : AddressSpace} {co i pos pos' : Nat} {data data' : Mem} {c : MapCall}
    {ub ub' : Option Int} (hz : ∀ k < E9_MAP_SIZE, data (pos + k) = 0)
    (h : emitRecord sp co i (data, pos, ub) c = .ok (data', pos', ub')) :
    data' = (data.write pos (c.bytes sp)).bumpU32 (co + Config.numMaps + 4 * i) ∧
      pos' = pos + E9_MAP_SIZE := by
  obtain ⟨⟨d, n, u⟩, h1, h2⟩ := bind_eq_ok.mp h
  cases h2
  obtain ⟨rfl, rfl, -⟩ := emitLoaderMap_zero hz h1
  exact ⟨rfl, rfl⟩

/-- The records of `calls` appended to a stored region over a buffer that is zero from
`co` on: the table grows by their records and its counter by their number. -/
lemma foldlM_emitRecord {sp : AddressSpace} {co i : Nat} (hi : i < 2) {m : Mem}
    (hz : ∀ j, co ≤ j → m j = 0) (calls : List MapCall) :
    ∀ {c : ConfigValues} {body : List UInt8} {ub ub' : Option Int} {data' : Mem} {pos' : Nat},
      c (.numMaps ⟨i, hi⟩) < 2 ^ 32 →
      calls.foldlM (emitRecord sp co i)
          (m.write co (c.fields.bytes ++ body), co + CONFIG_SIZE + body.length, ub) =
        .ok (data', pos', ub') →
      data' = m.write co ((ConfigValues.fields (Function.update c (.numMaps ⟨i, hi⟩)
          ((c (.numMaps ⟨i, hi⟩) + calls.length) % 2 ^ 32))).bytes ++
            (body ++ callsBytes sp calls)) ∧
        pos' = co + CONFIG_SIZE + (body ++ callsBytes sp calls).length := by
  induction calls with
  | nil =>
    intro c body ub ub' data' pos' hc h
    cases h
    refine ⟨?_, by simp⟩
    rw [List.length_nil, Nat.add_zero, Nat.mod_eq_of_lt hc, Function.update_eq_self]
    simp [callsBytes]
  | cons x calls ih =>
    intro c body ub ub' data' pos' hc h
    obtain ⟨⟨d, p, u⟩, h₁, h₂⟩ := bind_eq_ok.mp h
    obtain ⟨rfl, rfl⟩ := emitRecord_zero (fun k _ => by
      rw [Mem.write_of_ge (by simp only [List.length_append, ConfigValues.bytes_length]; omega)]
      exact hz _ (by omega)) h₁
    rw [write_region_append, Mem.bumpU32, c.read (.numMaps ⟨i, hi⟩) _ _ _ rfl, Nat.mod_eq_of_lt hc,
      ← Mem.writeLE_four_mod, c.store (.numMaps ⟨i, hi⟩),
      show co + CONFIG_SIZE + body.length + E9_MAP_SIZE =
        co + CONFIG_SIZE + (body ++ x.bytes sp).length by simp; omega] at h₂
    obtain ⟨e1, e2⟩ := ih (by rw [Function.update_same]; exact Nat.mod_lt _ (by norm_num)) h₂
    have hv : ((c (.numMaps ⟨i, hi⟩) + 1) % 2 ^ 32 + calls.length) % 2 ^ 32 =
        (c (.numMaps ⟨i, hi⟩) + (x :: calls).length) % 2 ^ 32 := by
      simp only [List.length_cons]
      omega
    refine ⟨?_, ?_⟩
    · rw [e1, Function.update_idem, Function.update_same, hv, List.append_assoc]
      rfl
    · rw [e2, callsBytes_cons, List.append_assoc]

/-! ### The init table, the mapping tables and the shim -/

def initBytes (inits : List Int) : List UInt8 := inits.flatMap fun a => leBytes 8 (u64 a)

@[simp] lemma initBytes_length (inits : List Int) : (initBytes inits).length = 8 * inits.length := by
  induction inits with
  | nil => rfl
  | cons a inits ih =>
    simp only [initBytes, List.flatMap_cons, List.length_append, leBytes_length] at ih ⊢
    rw [ih, List.length_cons]
    ring

/-- The init loop appends the table to a stored region and counts it in `num_inits`. -/
lemma emitInits_region {co : Nat} {m : Mem} (inits : List Int) :
    ∀ {c : ConfigValues} {body : List UInt8}, c .numInits < 2 ^ 32 →
      emitInits co (m.write co (c.fields.bytes ++ body)) (co + CONFIG_SIZE + body.length) inits =
        (m.write co ((ConfigValues.fields (Function.update c .numInits ((c .numInits + inits.length) % 2 ^ 32))).bytes ++
            (body ++ initBytes inits)),
          co + CONFIG_SIZE + (body ++ initBytes inits).length) := by
  induction inits with
  | nil =>
    intro c body hc
    simp only [emitInits, List.length_nil, Nat.add_zero, Nat.mod_eq_of_lt hc, Function.update_eq_self,
      initBytes, List.flatMap_nil, List.append_nil]
  | cons a inits ih =>
    intro c body hc
    have hc' : Function.update c .numInits ((c .numInits + 1) % 2 ^ 32) .numInits < 2 ^ 32 := by
      rw [Function.update_same]
      exact Nat.mod_lt _ (by norm_num)
    rw [emitInits, Mem.writeLE, write_region_append, Mem.bumpU32, c.read .numInits _ _ _ rfl,
      Nat.mod_eq_of_lt hc, ← Mem.writeLE_four_mod, c.store .numInits,
      show co + CONFIG_SIZE + body.length + 8 =
        co + CONFIG_SIZE + (body ++ leBytes 8 (u64 a)).length by simp; omega, ih hc']
    have hv : ((c .numInits + 1) % 2 ^ 32 + inits.length) % 2 ^ 32 =
        (c .numInits + (inits.length + 1)) % 2 ^ 32 := by omega
    simp only [List.length_cons, List.append_assoc, initBytes, List.flatMap_cons, hv,
      Function.update_idem, Function.update_same]

/-- The calls of the table pass for `preload`, in the order of the loops: heads in order,
each chain from its head, the nodes whose preload flag is the pass's, each bound in order. -/
def tableCalls (preload : Bool) (heads : List (Mapping × Nat)) : List MapCall :=
  heads.flatMap fun mo =>
    (mo.1.chain.filter fun node => node.preload == preload).flatMap fun node =>
      node.bounds.map (boundCall node mo.2)

lemma emitTable_eq (sp : AddressSpace) (co i : Nat) (heads : List (Mapping × Nat))
    (s : Mem × Nat × Option Int) :
    emitTable sp co i heads s = (tableCalls (decide (i = 0)) heads).foldlM (emitRecord sp co i)
      (s.1.writeLE (co + Config.maps + 4 * i) 4 (u32 (s.2.1 - co)), s.2.1, s.2.2) := by
  simp only [emitTable, tableCalls, foldlM_flatMap, foldlM_filter, List.foldlM_map]
  congr 1
  funext s mo
  congr 1
  funext s node
  by_cases h : node.preload = decide (i = 0) <;> simp [h]

/-- The shim's code before the displacement: the optional `int3`, the prologue and the
`lea`. -/
def shimCode (opts : Options) (mode : Mode) : List UInt8 :=
  (if opts.option_trap_entry then [0xCC] else []) ++ (shimPrologue mode ++ LEA_RDX)

/-- The entry shim at offset `off` of the region: its code, the `lea`'s displacement back to
the record, then the loader. -/
def shimBytes (opts : Options) (mode : Mode) (loaderBin : List UInt8) (off : Nat) : List UInt8 :=
  shimCode opts mode ++ leBytes 4 (u32 (toInt32 (-toInt32 (off + (shimCode opts mode).length + 4 : Nat)))) ++
    loaderBin

lemma emitShim_write (opts : Options) (mode : Mode) (loaderBin : List UInt8) (co : Nat) (m : Mem)
    (X : List UInt8) :
    emitShim opts mode loaderBin co (m.write co X) (co + X.length) =
      (m.write co (X ++ shimBytes opts mode loaderBin X.length),
        co + X.length + (shimBytes opts mode loaderBin X.length).length,
        toIntptr (opts.option_loader_base + (X.length : Nat))) := by
  have htrap : ∀ t : Bool, (if t then (m.write co X).write (co + X.length) [0xCC] else m.write co X)
      = m.write co (X ++ if t then [0xCC] else []) ∧
      (if t then co + X.length + 1 else co + X.length) = co + (X ++ if t then [0xCC] else []).length := by
    intro t; cases t <;> simp [Mem.write_append, Nat.add_assoc]
  simp only [emitShim, shimBytes, shimCode, (htrap _).1, (htrap _).2, Mem.writeLE]
  generalize (if opts.option_trap_entry then ([0xCC] : List UInt8) else []) = trap
  have hd : co + (X ++ trap).length + (shimPrologue mode ++ LEA_RDX).length + 4 - co =
      X.length + (trap ++ (shimPrologue mode ++ LEA_RDX)).length + 4 := by
    simp only [List.length_append]; omega
  rw [Mem.write_snoc _ _ _ rfl, Mem.write_snoc _ _ _ (by simp [Nat.add_assoc]),
    Mem.write_snoc _ _ _ (by simp [Nat.add_assoc]), hd, Nat.add_sub_cancel_left]
  simp only [List.append_assoc, List.length_append, leBytes_length, Prod.mk.injEq, and_true, true_and]
  omega

/-! ### The config header -/

def mmapValue (B : Binary) : Nat := if B.mmap ≠ INTPTR_MIN then u64 B.mmap else 0

/-- The record as `emitConfigHeader` leaves it after an extension of `E` bytes: `base`,
`mmap` and `inits` set. -/
def ConfigValues.initial (E base mmap : Nat) : ConfigValues
  | .base => base
  | .mmap => mmap
  | .inits => (CONFIG_SIZE + E) % 2 ^ 32
  | _ => 0

lemma ConfigValues.zero_bytes : (ConfigValues.fields fun _ => 0).bytes = E9_MAGIC ++ List.replicate 64 0 := by
  decide

/-- Over a buffer that is zero from `config_offset` on, the header is the record with
`base`, `mmap` and `inits` set, followed by the zero bytes of the extension. -/
lemma emitConfigHeader_region (opts : Options) (loader : Loader) (B : Binary) {co : Nat} {data : Mem}
    (hz : ∀ j, co ≤ j → data j = 0) :
    emitConfigHeader opts loader B co data =
      data.write co ((ConfigValues.initial loader.CONFIG_ELF_SIZE (u64 opts.option_loader_base)
        (mmapValue B)).fields.bytes ++ List.replicate loader.CONFIG_ELF_SIZE 0) := by
  have hmagic : data.write co E9_MAGIC = data.write co
      ((ConfigValues.fields fun _ => 0).bytes ++ List.replicate loader.CONFIG_ELF_SIZE 0) := by
    rw [ConfigValues.zero_bytes, List.append_assoc, ← List.replicate_add, ← Mem.write_append]
    refine (Mem.write_self fun k hk => ?_).symm
    rw [Mem.write_of_ge (by simp), hz _ (by omega)]
    simp only [List.length_replicate] at hk
    rw [List.getD_eq_getElem?_getD, List.getElem?_replicate, if_pos hk, Option.getD_some]
  have hinits : u32 (CONFIG_SIZE + loader.CONFIG_ELF_SIZE) = (CONFIG_SIZE + loader.CONFIG_ELF_SIZE) % 2 ^ 32 := by
    rw [← Nat.cast_add, u32_natCast]
  simp only [emitConfigHeader]
  rw [hmagic, ConfigValues.store _ .base]
  split_ifs with hm <;>
  · simp only [ConfigValues.store _ .mmap, ConfigValues.store _ .inits, hinits]
    refine congrArg (fun c : ConfigValues =>
      data.write co ((ConfigValues.fields c).bytes ++ List.replicate loader.CONFIG_ELF_SIZE 0)) ?_
    funext f
    cases f <;> simp [ConfigValues.initial, mmapValue, hm, Function.update_apply]

/-! ### The region -/

/-- A table pass appended to a stored region: `maps[i]` set to the cursor, then the records
of the pass's calls. -/
lemma emitTable_region {sp : AddressSpace} {co i : Nat} (hi : i < 2) {m : Mem}
    (hz : ∀ j, co ≤ j → m j = 0) (heads : List (Mapping × Nat)) {c : ConfigValues}
    {body : List UInt8} {ub ub' : Option Int} {data' : Mem} {pos' : Nat}
    (hc : c (.numMaps ⟨i, hi⟩) < 2 ^ 32)
    (h : emitTable sp co i heads (m.write co (c.fields.bytes ++ body), co + CONFIG_SIZE + body.length, ub) =
      .ok (data', pos', ub')) :
    data' = m.write co ((ConfigValues.fields (Function.update (Function.update c (.maps ⟨i, hi⟩)
        ((CONFIG_SIZE + body.length) % 2 ^ 32)) (.numMaps ⟨i, hi⟩)
          ((c (.numMaps ⟨i, hi⟩) + (tableCalls (decide (i = 0)) heads).length) % 2 ^ 32))).bytes ++
          (body ++ callsBytes sp (tableCalls (decide (i = 0)) heads))) ∧
      pos' = co + CONFIG_SIZE + (body ++ callsBytes sp (tableCalls (decide (i = 0)) heads)).length := by
  have hv : u32 ((co + CONFIG_SIZE + body.length : Nat) - (co : Int)) =
      (CONFIG_SIZE + body.length) % 2 ^ 32 := by
    rw [← u32_natCast]
    congr 1
    push_cast
    ring
  have hne : ConfigField.numMaps ⟨i, hi⟩ ≠ .maps ⟨i, hi⟩ := nofun
  rw [emitTable_eq] at h
  dsimp only at h
  rw [c.store (.maps ⟨i, hi⟩), hv] at h
  obtain ⟨e1, e2⟩ := foldlM_emitRecord hi hz _ (by rwa [Function.update_noteq hne]) h
  rw [Function.update_noteq hne] at e1
  exact ⟨e1, e2⟩

/-- Started from a value, `*ub` stays a value, the largest of it and the non-absolute
addresses: it is bounded exactly when each of them is. -/
lemma foldl_ubStep_le_iff {sp : AddressSpace} {b : Int} (calls : List MapCall) :
    ∀ {u : Int}, (calls.foldl (ubStep sp) (some u)).getD INTPTR_MIN ≤ b ↔
      u ≤ b ∧ ∀ c ∈ calls, sp.IS_ABSOLUTE c.addr = false → c.addr ≤ b := by
  induction calls with
  | nil => simp
  | cons c calls ih =>
    intro u
    cases ha : sp.IS_ABSOLUTE c.addr
    · simp only [List.foldl_cons, ubStep, ha, Bool.false_eq_true, if_false, Option.map_some', ih,
        max_le_iff, List.forall_mem_cons, forall_const, and_assoc]
    · simp only [List.foldl_cons, ubStep, ha, if_true, ih, List.forall_mem_cons, Bool.true_eq_false,
        false_implies, true_and]

def postloadCalls (heads : List (Mapping × Nat)) (refactors : List Refactor) : List MapCall :=
  tableCalls false heads ++ refactors.map refactorCall

def loaderTables (sp : AddressSpace) (B : Binary) (heads : List (Mapping × Nat))
    (refactors : List Refactor) : List UInt8 :=
  initBytes B.inits ++ callsBytes sp (tableCalls true heads) ++
    callsBytes sp (postloadCalls heads refactors)

def shimOffset (sp : AddressSpace) (loader : Loader) (B : Binary) (heads : List (Mapping × Nat))
    (refactors : List Refactor) : Nat :=
  CONFIG_SIZE + loader.CONFIG_ELF_SIZE + (loaderTables sp B heads refactors).length

/-- The record of a finished region of `len` bytes with an extension of `E` bytes, `n` inits
and `k₀`, `k₁` records: the fields step (4) sets, as the `uint32_t` fields hold them. -/
def regionConfig (E base mmap n k₀ k₁ len : Nat) : ConfigValues
  | .size => pageRoundUp len % 2 ^ 32
  | .base => base
  | .mmap => mmap
  | .numMaps i => (if i = 0 then k₀ else k₁) % 2 ^ 32
  | .maps i => (CONFIG_SIZE + E + 8 * n + if i = 0 then 0 else E9_MAP_SIZE * k₀) % 2 ^ 32
  | .numInits => n % 2 ^ 32
  | .inits => (CONFIG_SIZE + E) % 2 ^ 32
  | _ => 0

/-- The loader region as the spec lays it out: the record, the zero bytes of its extension,
the init table, the preload and postload tables, then the entry shim and the loader. -/
def loaderRegion (sp : AddressSpace) (opts : Options) (loader : Loader) (B : Binary)
    (heads : List (Mapping × Nat)) (refactors : List Refactor) : List UInt8 :=
  let shim := shimBytes opts B.mode loader.bin (shimOffset sp loader B heads refactors)
  (regionConfig loader.CONFIG_ELF_SIZE (u64 opts.option_loader_base) (mmapValue B) B.inits.length
      (tableCalls true heads).length (postloadCalls heads refactors).length
      (shimOffset sp loader B heads refactors + shim.length)).fields.bytes ++
    (List.replicate loader.CONFIG_ELF_SIZE 0 ++ loaderTables sp B heads refactors ++ shim)

lemma emitShim_region (opts : Options) (mode : Mode) (loaderBin : List UInt8) (co : Nat) (m : Mem)
    (c : ConfigValues) (body : List UInt8) :
    emitShim opts mode loaderBin co (m.write co (c.fields.bytes ++ body)) (co + CONFIG_SIZE + body.length) =
      (m.write co (c.fields.bytes ++ (body ++ shimBytes opts mode loaderBin (CONFIG_SIZE + body.length))),
        co + CONFIG_SIZE + (body ++ shimBytes opts mode loaderBin (CONFIG_SIZE + body.length)).length,
        toIntptr (opts.option_loader_base + (CONFIG_SIZE + body.length : Nat))) := by
  have hX : (c.fields.bytes ++ body).length = CONFIG_SIZE + body.length := by
    simp only [List.length_append, ConfigValues.bytes_length]
  have e := emitShim_write opts mode loaderBin co m (c.fields.bytes ++ body)
  rw [hX, ← Nat.add_assoc] at e
  rw [e, List.append_assoc, List.length_append, Nat.add_assoc _ body.length]

/-- What a run of step (4) guarantees of its calls, whatever the buffer holds: every call
passed the range checks, and every trampoline address that is not absolute lies at or below
the loader base. -/
lemma emitLoader_calls {sp : AddressSpace} {opts : Options} {loader : Loader} {B : Binary}
    {heads : List (Mapping × Nat)} {refactors : List Refactor} {co : Nat} {data : Mem}
    {r : Mem × Nat × Int} (h : emitLoader sp opts loader B heads refactors co data = .ok r) :
    (∀ c ∈ tableCalls true heads ++ postloadCalls heads refactors, c.Fits sp) ∧
      ∀ c ∈ tableCalls true heads ++ tableCalls false heads,
        sp.IS_ABSOLUTE c.addr = false → c.addr ≤ opts.option_loader_base := by
  simp only [emitLoader] at h
  obtain ⟨s₀, h₀, h⟩ := bind_eq_ok.mp h
  obtain ⟨s₁, h₁, h⟩ := bind_eq_ok.mp h
  rw [emitTable_eq] at h₀ h₁
  obtain ⟨u₀, f₀⟩ := foldlM_emitRecord_calls _ h₀
  obtain ⟨u₁, f₁⟩ := foldlM_emitRecord_calls _ h₁
  split at h
  · cases h
  rename_i hub
  simp only [pure_bind] at h
  obtain ⟨s₂, h₂, -⟩ := bind_eq_ok.mp h
  rw [← List.foldlM_map] at h₂
  obtain ⟨-, f₂⟩ := foldlM_emitRecord_calls _ h₂
  simp only [decide_True, Nat.one_ne_zero, decide_False] at u₀ u₁ f₀ f₁
  refine ⟨fun c hc => ?_, ?_⟩
  · simp only [postloadCalls, List.mem_append] at hc
    rcases hc with hc | hc | hc
    · exact f₀ c hc
    · exact f₁ c hc
    · exact f₂ c hc
  · rw [u₁, u₀, ← List.foldl_append] at hub
    exact ((foldl_ubStep_le_iff _).mp (not_lt.mp hub)).2

lemma foldlM_emitRecord_isOk {sp : AddressSpace} {co i : Nat} (calls : List MapCall) :
    ∀ {s : Mem × Nat × Option Int},
      (∃ s', calls.foldlM (emitRecord sp co i) s = .ok s') ↔ ∀ c ∈ calls, c.Fits sp := by
  induction calls with
  | nil => exact ⟨fun _ => by simp, fun _ => ⟨_, rfl⟩⟩
  | cons c calls ih =>
    intro s
    refine ⟨fun ⟨_, h⟩ => (foldlM_emitRecord_calls _ h).2, fun h => ?_⟩
    rw [List.forall_mem_cons] at h
    obtain ⟨⟨d, n, u⟩, hc⟩ : ∃ res,
        emitLoaderMap sp s.1 s.2.1 c.addr c.len c.offset c.r c.w c.x s.2.2 = .ok res :=
      emitLoaderMap_isOk.mpr h.1
    rw [List.foldlM_cons]
    exact exists_ok_bind ⟨_, by rw [emitRecord, hc]; rfl⟩ fun _ _ => ih.mpr h.2

/-- Step (4) raises no error exactly when every call passes the range checks and no
trampoline address that is not absolute lies above the loader base: the converse of
`emitLoader_calls`, for a base that is an `intptr_t`. -/
lemma emitLoader_isOk {sp : AddressSpace} {opts : Options} {loader : Loader} {B : Binary}
    {heads : List (Mapping × Nat)} {refactors : List Refactor} {co : Nat} {data : Mem}
    (hbase : INTPTR_MIN ≤ opts.option_loader_base) :
    (∃ r, emitLoader sp opts loader B heads refactors co data = .ok r) ↔
      (∀ c ∈ tableCalls true heads ++ postloadCalls heads refactors, c.Fits sp) ∧
      ∀ c ∈ tableCalls true heads ++ tableCalls false heads,
        sp.IS_ABSOLUTE c.addr = false → c.addr ≤ opts.option_loader_base := by
  refine ⟨fun ⟨_, h⟩ => emitLoader_calls h, fun ⟨hfit, hub⟩ => ?_⟩
  simp only [postloadCalls, List.forall_mem_append] at hfit
  simp only [emitLoader, emitTable_eq]
  refine exists_ok_bind ((foldlM_emitRecord_isOk _).mpr hfit.1) fun s₀ h₀ => ?_
  refine exists_ok_bind ((foldlM_emitRecord_isOk _).mpr hfit.2.1) fun s₁ h₁ => ?_
  have hle : s₁.2.2.getD INTPTR_MIN ≤ opts.option_loader_base := by
    rw [(foldlM_emitRecord_calls _ h₁).1, (foldlM_emitRecord_calls _ h₀).1, ← List.foldl_append]
    exact (foldl_ubStep_le_iff _).mpr ⟨hbase, hub⟩
  rw [if_neg (not_lt.mpr hle), pure_bind, ← List.foldlM_map]
  exact exists_ok_bind ((foldlM_emitRecord_isOk _).mpr hfit.2.2) fun _ _ => ⟨_, rfl⟩

/-- Step (4) over a buffer that is zero from `config_offset` on writes `loaderRegion` there
and nothing else, and returns the end of the region and the shim's address. -/
theorem emitLoader_region {sp : AddressSpace} {opts : Options} {loader : Loader}
    {B : Binary} {heads : List (Mapping × Nat)} {refactors : List Refactor} {co : Nat}
    {data data' : Mem} {size : Nat} {entry : Int} (hz : ∀ j, co ≤ j → data j = 0)
    (h : emitLoader sp opts loader B heads refactors co data = .ok (data', size, entry)) :
    data' = data.write co (loaderRegion sp opts loader B heads refactors) ∧
      size = co + (loaderRegion sp opts loader B heads refactors).length ∧
      entry = toIntptr (opts.option_loader_base + (shimOffset sp loader B heads refactors : Nat)) := by
  have hI := @emitInits_region co data B.inits
    (ConfigValues.initial loader.CONFIG_ELF_SIZE (u64 opts.option_loader_base) (mmapValue B))
    (List.replicate loader.CONFIG_ELF_SIZE 0) (by simp [ConfigValues.initial])
  rw [List.length_replicate] at hI
  simp only [emitLoader, emitConfigHeader_region opts loader B hz, hI] at h
  clear hI
  obtain ⟨⟨d₀, p₀, u₀⟩, h₀, h⟩ := bind_eq_ok.mp h
  obtain ⟨rfl, rfl⟩ := emitTable_region (by norm_num) hz heads (by simp [ConfigValues.initial]) h₀
  obtain ⟨⟨d₁, p₁, u₁⟩, h₁, h⟩ := bind_eq_ok.mp h
  obtain ⟨rfl, rfl⟩ := emitTable_region (by norm_num) hz heads
    (by simp [ConfigValues.initial, Function.update_apply]) h₁
  split at h
  · cases h
  simp only [pure_bind] at h
  obtain ⟨⟨d₂, p₂, u₂⟩, h₂, h⟩ := bind_eq_ok.mp h
  rw [← List.foldlM_map] at h₂
  clear h₀ h₁
  obtain ⟨rfl, rfl⟩ := foldlM_emitRecord (by norm_num) hz _
    (by simp only [Function.update_same]; exact Nat.mod_lt _ (by norm_num)) h₂
  clear h₂
  cases h
  rw [emitShim_region, ConfigValues.store _ .size]
  simp only [decide_True, Nat.one_ne_zero, decide_False]
  have hT : List.replicate loader.CONFIG_ELF_SIZE 0 ++ initBytes B.inits ++
      callsBytes sp (tableCalls true heads) ++ callsBytes sp (tableCalls false heads) ++
      callsBytes sp (refactors.map refactorCall) =
      List.replicate loader.CONFIG_ELF_SIZE 0 ++ loaderTables sp B heads refactors := by
    simp [loaderTables, postloadCalls]
  have hO : CONFIG_SIZE + (List.replicate loader.CONFIG_ELF_SIZE 0 ++
      loaderTables sp B heads refactors).length = shimOffset sp loader B heads refactors := by
    simp only [List.length_append, List.length_replicate, shimOffset, Nat.add_assoc]
  have hL : co + CONFIG_SIZE + (List.replicate loader.CONFIG_ELF_SIZE 0 ++
      loaderTables sp B heads refactors ++
        shimBytes opts B.mode loader.bin (shimOffset sp loader B heads refactors)).length =
      co + (shimOffset sp loader B heads refactors +
        (shimBytes opts B.mode loader.bin (shimOffset sp loader B heads refactors)).length) := by
    simp only [← hO, List.length_append]
    omega
  simp only [hT, loaderRegion, hO, hL, Nat.add_sub_cancel_left, u32_natCast]
  refine ⟨congrArg (fun c : ConfigValues => data.write co (c.fields.bytes ++ _)) ?_, ?_, trivial⟩
  · funext f
    have hn : (List.replicate loader.CONFIG_ELF_SIZE 0 ++ initBytes B.inits).length =
        loader.CONFIG_ELF_SIZE + 8 * B.inits.length := by simp
    cases f with
    | numMaps i | maps i =>
      fin_cases i <;>
        simp [Function.update_apply, regionConfig, ConfigValues.initial, postloadCalls, hn] <;> omega
    | _ => simp [Function.update_apply, regionConfig, ConfigValues.initial]
  · simp only [List.length_append, ConfigValues.bytes_length, List.length_replicate, shimOffset]
    omega

end E9Patch
