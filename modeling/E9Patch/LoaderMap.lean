import E9Patch.Basic

/-!
# The map records of the loader

`emitLoaderMap` range-checks one mapping and stores it as a `struct e9_map_s` of
`e9loader.h`: an `int32_t` page address, a `uint32_t` page offset, and a word whose bit fields
are `size:20`, `__reserved:8`, `r`, `w`, `x` and `abs`, from the least significant bit up.
`E9Map` is such a record with every field inside its width; `E9Map.store` writes it as the
compiler lays the structure out, and `E9Map.read` decodes twelve bytes.

* `E9Map.read_store`: a stored record reads back as itself.
* `emitLoaderMap_eq_ok`: what a call that raises no error returns.
* `emitLoaderMap_record`: the record such a call leaves in the buffer, field by field.
-/

namespace E9Patch

def INT32_MIN : Int := -2 ^ 31

def INT32_MAX : Int := 2 ^ 31 - 1

def UINT32_MAX : Nat := 2 ^ 32 - 1

def E9_MAP_SIZE : Nat := 12

/-- `struct e9_map_s`, each field within its width. -/
@[ext] structure E9Map where
  addr : Int
  offset : Nat
  size : Nat
  reserved : Nat
  r : Bool
  w : Bool
  x : Bool
  abs : Bool
  addr_mem : INT32_MIN ≤ addr ∧ addr ≤ INT32_MAX
  offset_le : offset ≤ UINT32_MAX
  size_lt : size < 2 ^ 20
  reserved_lt : reserved < 2 ^ 8

/-- The third word of the record: `size`, `__reserved`, `r`, `w`, `x`, `abs` from bit 0 up. -/
def E9Map.word (e : E9Map) : Nat :=
  e.size + 2 ^ 20 * e.reserved +
    2 ^ 28 * (e.r.toNat + 2 * e.w.toNat + 4 * e.x.toNat + 8 * e.abs.toNat)

def E9Map.store (m : Mem) (pos : Nat) (e : E9Map) : Mem :=
  ((m.writeLE pos 4 (u32 e.addr)).writeLE (pos + 4) 4 e.offset).writeLE (pos + 8) 4 e.word

lemma toInt32_mem (n : Int) : INT32_MIN ≤ toInt32 n ∧ toInt32 n ≤ INT32_MAX := by
  have h1 := Int.le_bmod (x := n) (m := 2 ^ 32) (by decide)
  have h2 := Int.bmod_lt (x := n) (m := 2 ^ 32) (by decide)
  unfold INT32_MIN INT32_MAX toInt32
  norm_num at h1 h2 ⊢
  omega

lemma toInt32_of_mem {n : Int} (h : INT32_MIN ≤ n ∧ n ≤ INT32_MAX) : toInt32 n = n := by
  unfold toInt32 INT32_MIN INT32_MAX at *
  rw [Int.bmod_def]
  by_cases hn : 0 ≤ n
  · rw [Int.emod_eq_of_lt hn (by omega)]
    simp only [show n < ((2 ^ 32 : Nat) + 1 : Int) / 2 by omega, if_true]
  · have he : n % ((2 ^ 32 : Nat) : Int) = n + 2 ^ 32 := by
      rw [← Int.add_mul_emod_self (b := 1)]
      exact Int.emod_eq_of_lt (by omega) (by omega)
    rw [he, if_neg (by omega)]
    omega

lemma toInt32_u32 {a : Int} (h : INT32_MIN ≤ a ∧ a ≤ INT32_MAX) : toInt32 (u32 a) = a := by
  rw [toInt32, u32, Int.toNat_of_nonneg (Int.emod_nonneg _ (by decide)),
    show (2 : Int) ^ 32 = ((2 ^ 32 : Nat) : Int) by norm_num, Int.emod_bmod]
  exact toInt32_of_mem h

/-- The record at `pos`, decoded: the address is sign-extended. -/
def E9Map.read (m : Mem) (pos : Nat) : E9Map where
  addr := toInt32 (m.readLE pos 4)
  offset := m.readLE (pos + 4) 4
  size := m.readLE (pos + 8) 4 % 2 ^ 20
  reserved := m.readLE (pos + 8) 4 / 2 ^ 20 % 2 ^ 8
  r := m.readLE (pos + 8) 4 / 2 ^ 28 % 2 == 1
  w := m.readLE (pos + 8) 4 / 2 ^ 29 % 2 == 1
  x := m.readLE (pos + 8) 4 / 2 ^ 30 % 2 == 1
  abs := m.readLE (pos + 8) 4 / 2 ^ 31 % 2 == 1
  addr_mem := toInt32_mem _
  offset_le := by
    have := m.readLE_lt (pos + 4) 4
    unfold UINT32_MAX
    omega
  size_lt := Nat.mod_lt _ (by decide)
  reserved_lt := Nat.mod_lt _ (by decide)

lemma E9Map.word_lt (e : E9Map) : e.word < 2 ^ 32 := by
  have := e.size_lt
  have := e.reserved_lt
  have := e.r.toNat_le
  have := e.w.toNat_le
  have := e.x.toNat_le
  have := e.abs.toNat_le
  unfold word
  omega

lemma bool_of_toNat {b : Bool} {n : Nat} (h : n = b.toNat) : (n == 1) = b := by
  cases b <;> simp [h]

@[simp] lemma E9Map.read_store (m : Mem) (pos : Nat) (e : E9Map) : read (store m pos e) pos = e := by
  have h0 : (store m pos e).readLE pos 4 = u32 e.addr := by
    rw [store, Mem.writeLE, Mem.readLE_write_of_disjoint (by simp), Mem.writeLE,
      Mem.readLE_write_of_disjoint (by simp), Mem.readLE_writeLE_self,
      Nat.mod_eq_of_lt (by unfold u32; omega)]
  have h1 : (store m pos e).readLE (pos + 4) 4 = e.offset := by
    have := e.offset_le
    unfold UINT32_MAX at this
    rw [store, Mem.writeLE, Mem.readLE_write_of_disjoint (by simp), Mem.readLE_writeLE_self,
      Nat.mod_eq_of_lt (by omega)]
  have h2 : (store m pos e).readLE (pos + 8) 4 = e.word := by
    rw [store, Mem.readLE_writeLE_self, Nat.mod_eq_of_lt (by have := e.word_lt; omega)]
  have := e.size_lt
  have := e.reserved_lt
  have := e.r.toNat_le
  have := e.w.toNat_le
  have := e.x.toNat_le
  have := e.abs.toNat_le
  ext <;> simp only [read, h0, h1, h2, toInt32_u32 e.addr_mem]
  all_goals first
    | (unfold E9Map.word; omega)
    | exact bool_of_toNat (by unfold E9Map.word; omega)

def E9Map.bytes (e : E9Map) : List UInt8 :=
  leBytes 4 (u32 e.addr) ++ leBytes 4 e.offset ++ leBytes 4 e.word

lemma E9Map.store_eq_write (m : Mem) (pos : Nat) (e : E9Map) : store m pos e = m.write pos e.bytes := by
  rw [store, Mem.writeLE, Mem.writeLE, Mem.writeLE, bytes, ← Mem.write_append, ← Mem.write_append]
  simp

lemma E9Map.store_of_not_mem {m : Mem} {pos i : Nat} (e : E9Map)
    (h : i < pos ∨ pos + E9_MAP_SIZE ≤ i) : store m pos e i = m i := by
  unfold E9_MAP_SIZE at h
  simp only [store, Mem.writeLE]
  rw [Mem.write_of_not_mem (by simp; omega), Mem.write_of_not_mem (by simp; omega),
    Mem.write_of_not_mem (by simp; omega)]

/-- The message of the address check; `ADDRESS_FORMAT` is defined outside this source, and
the address is printed in decimal here. -/
def addressError (addr : Int) : String :=
  "mapping address (" ++ toString addr ++ ") " ++ (if addr < 0 then "under" else "over") ++
    "flow detected"

/-- `emitLoaderMap(data + pos, addr, len, offset, r, w, x, ub)`: the buffer with the record
stored, the `sizeof(struct e9_map_s)` it returns, and the bound `*ub` (`none` is `nullptr`).
`addr` is divided as an `intptr_t`, rounding towards zero; `offset` is an `off_t` divided by
the `size_t` constant `PAGE_SIZE`, so in 64-bit unsigned arithmetic. The bit-field stores
leave `__reserved` as the buffer holds it. -/
def emitLoaderMap (sp : AddressSpace) (data : Mem) (pos : Nat) (addr : Int) (len : Nat)
    (offset : Int) (r w x : Bool) (ub : Option Int) : Except String (Mem × Nat × Option Int) :=
  let abs := sp.IS_ABSOLUTE addr
  let ub := if abs then ub else ub.map fun u => max u addr
  let addr := (sp.BASE_ADDRESS addr).tdiv PAGE_SIZE
  let len := len / PAGE_SIZE
  let offset := u64 offset / PAGE_SIZE
  if ha : addr < INT32_MIN ∨ addr > INT32_MAX then throw (addressError addr)
  else if 2 ^ 21 ≤ len then throw ("mapping size (" ++ toString len ++ ") overflow detected")
  else if ho : offset > UINT32_MAX then
    throw ("mapping offset (+" ++ toString offset ++ ") overflow detected")
  else
    let map : E9Map :=
      { E9Map.read data pos with
        addr, offset, size := len % 2 ^ 16, r, w, x, abs
        addr_mem := by omega
        offset_le := by omega
        size_lt := by omega }
    pure (E9Map.store data pos map, E9_MAP_SIZE, ub)

section Spec

variable {sp : AddressSpace} {data : Mem} {pos : Nat} {addr : Int} {len : Nat} {offset : Int}
  {r w x : Bool} {ub : Option Int}

/-- A call that raises no error passed all three range checks, stored one record, returned
`sizeof(struct e9_map_s)`, and raised `*ub` to `addr` when `addr` is not absolute. -/
lemma emitLoaderMap_eq_ok {res : Mem × Nat × Option Int}
    (h : emitLoaderMap sp data pos addr len offset r w x ub = .ok res) :
    ∃ e : E9Map, res = (E9Map.store data pos e, E9_MAP_SIZE,
        if sp.IS_ABSOLUTE addr then ub else ub.map fun u => max u addr) ∧
      e.addr = (sp.BASE_ADDRESS addr).tdiv PAGE_SIZE ∧ e.offset = u64 offset / PAGE_SIZE ∧
      e.size = len / PAGE_SIZE % 2 ^ 16 ∧ e.reserved = (E9Map.read data pos).reserved ∧
      e.r = r ∧ e.w = w ∧ e.x = x ∧ e.abs = sp.IS_ABSOLUTE addr ∧ len / PAGE_SIZE < 2 ^ 21 := by
  unfold emitLoaderMap at h
  dsimp only at h
  split at h
  · cases h
  split at h
  · cases h
  split at h
  · cases h
  cases h
  exact ⟨_, rfl, rfl, rfl, rfl, rfl, rfl, rfl, rfl, rfl, by omega⟩

/-- The checks `emitLoaderMap` makes, on the values it has divided by `PAGE_SIZE`. -/
def MapFits (sp : AddressSpace) (addr : Int) (len : Nat) (offset : Int) : Prop :=
  INT32_MIN ≤ (sp.BASE_ADDRESS addr).tdiv PAGE_SIZE ∧
    (sp.BASE_ADDRESS addr).tdiv PAGE_SIZE ≤ INT32_MAX ∧ len / PAGE_SIZE < 2 ^ 21 ∧
    u64 offset / PAGE_SIZE ≤ UINT32_MAX

instance : Decidable (MapFits sp addr len offset) := inferInstanceAs (Decidable (_ ∧ _ ∧ _ ∧ _))

/-- `emitLoaderMap` raises no error exactly when the three checks pass. -/
lemma emitLoaderMap_isOk :
    (∃ res, emitLoaderMap sp data pos addr len offset r w x ub = .ok res) ↔
      MapFits sp addr len offset := by
  unfold emitLoaderMap MapFits
  constructor
  · rintro ⟨res, h⟩
    dsimp only at h
    split at h
    · cases h
    split at h
    · cases h
    split at h
    · cases h
    omega
  · intro hf
    rw [dif_neg (by omega), if_neg (by omega), dif_neg (by omega)]
    exact ⟨_, rfl⟩

/-- The record a successful call leaves at `pos`, field by field: the page address rounded
towards zero, the page offset, the page count cut to its low 16 bits, the reserved bits the
buffer held, and the flags; the call returns `sizeof(struct e9_map_s)` and leaves every byte
outside the record alone. -/
theorem emitLoaderMap_record {data' : Mem} {n : Nat} {ub' : Option Int}
    (h : emitLoaderMap sp data pos addr len offset r w x ub = .ok (data', n, ub')) :
    (E9Map.read data' pos).addr = (sp.BASE_ADDRESS addr).tdiv PAGE_SIZE ∧
      (E9Map.read data' pos).offset = u64 offset / PAGE_SIZE ∧
      (E9Map.read data' pos).size = len / PAGE_SIZE % 2 ^ 16 ∧
      (E9Map.read data' pos).reserved = (E9Map.read data pos).reserved ∧
      (E9Map.read data' pos).r = r ∧ (E9Map.read data' pos).w = w ∧
      (E9Map.read data' pos).x = x ∧ (E9Map.read data' pos).abs = sp.IS_ABSOLUTE addr ∧
      n = E9_MAP_SIZE ∧ ∀ i, i < pos ∨ pos + E9_MAP_SIZE ≤ i → data' i = data i := by
  obtain ⟨e, he, h1, h2, h3, h4, h5, h6, h7, h8, -⟩ := emitLoaderMap_eq_ok h
  simp only [Prod.mk.injEq] at he
  obtain ⟨rfl, rfl, -⟩ := he
  simp only [E9Map.read_store]
  exact ⟨h1, h2, h3, h4, h5, h6, h7, h8, trivial, fun i hi => E9Map.store_of_not_mem e hi⟩

end Spec

/-- A one-page mapping at `0x400000`, file offset `0x2000`, with `BASE_ADDRESS` the identity:
its record reads back as page address `0x400`, page offset `2`, one page. -/
theorem emitLoaderMap_record_one_page :
    ∃ data', emitLoaderMap ⟨fun _ => false, id, INTPTR_MIN⟩ (fun _ => 0) 0 0x400000 0x1000 0x2000 true false
        true none = .ok (data', E9_MAP_SIZE, none) ∧
      (E9Map.read data' 0).addr = 0x400 ∧ (E9Map.read data' 0).offset = 2 ∧
      (E9Map.read data' 0).size = 1 ∧ (E9Map.read data' 0).reserved = 0 ∧
      (E9Map.read data' 0).r = true ∧ (E9Map.read data' 0).w = false ∧
      (E9Map.read data' 0).x = true ∧ (E9Map.read data' 0).abs = false ∧
      E9_MAP_SIZE = E9_MAP_SIZE ∧ ∀ i, i < 0 ∨ 0 + E9_MAP_SIZE ≤ i → data' i = 0 := by
  obtain ⟨d, hd⟩ : ∃ d, emitLoaderMap ⟨fun _ => false, id, INTPTR_MIN⟩ (fun _ => 0) 0 0x400000 0x1000 0x2000
      true false true none = .ok (d, E9_MAP_SIZE, none) := ⟨_, rfl⟩
  exact ⟨d, hd, emitLoaderMap_record hd⟩

section Spec

variable {sp : AddressSpace} {data : Mem} {pos : Nat} {addr : Int} {len : Nat} {offset : Int}
  {r w x : Bool} {ub : Option Int}

/-- For a page-multiple length, the size field of the record times `PAGE_SIZE` reads back as
the length exactly when the mapping is shorter than `2 ^ 16` pages. -/
theorem emitLoaderMap_size_exact_iff {data' : Mem} {n : Nat} {ub' : Option Int}
    (h : emitLoaderMap sp data pos addr len offset r w x ub = .ok (data', n, ub'))
    (hlen : len % PAGE_SIZE = 0) :
    (E9Map.read data' pos).size * PAGE_SIZE = len ↔ len < 2 ^ 16 * PAGE_SIZE := by
  obtain ⟨e, he, -, -, hs, -⟩ := emitLoaderMap_eq_ok h
  simp only [Prod.mk.injEq] at he
  rw [he.1, E9Map.read_store, hs]
  unfold PAGE_SIZE at *
  omega

end Spec

/-- The size check on a one-page mapping: its size field reads back as `PAGE_SIZE` bytes. -/
theorem emitLoaderMap_size_exact_one_page :
    ∃ data', emitLoaderMap ⟨fun _ => false, id, INTPTR_MIN⟩ (fun _ => 0) 0 0x400000 0x1000 0x2000 true false
        true none = .ok (data', E9_MAP_SIZE, none) ∧ 0x1000 % PAGE_SIZE = 0 ∧
      ((E9Map.read data' 0).size * PAGE_SIZE = 0x1000 ↔ 0x1000 < 2 ^ 16 * PAGE_SIZE) := by
  obtain ⟨d, hd⟩ : ∃ d, emitLoaderMap ⟨fun _ => false, id, INTPTR_MIN⟩ (fun _ => 0) 0 0x400000 0x1000 0x2000
      true false true none = .ok (d, E9_MAP_SIZE, none) := ⟨_, rfl⟩
  exact ⟨d, hd, rfl, emitLoaderMap_size_exact_iff hd rfl⟩

/-- A mapping of `2 ^ 16` pages (256 MiB) at a loader-relative address passes every check, and
its record's size field reads back as `0`. -/
theorem emitLoaderMap_truncates_size (sp : AddressSpace) (data : Mem) (pos : Nat)
    (hbase : sp.BASE_ADDRESS 0x400000 = 0x400000) :
    ∃ data', emitLoaderMap sp data pos 0x400000 0x10000000 0 true false true none =
        .ok (data', E9_MAP_SIZE, none) ∧ (E9Map.read data' pos).size = 0 := by
  unfold emitLoaderMap
  simp only [hbase]
  rw [dif_neg (by decide), if_neg (by decide), dif_neg (by decide)]
  refine ⟨_, by simp only [Option.map_none', ite_self]; rfl, ?_⟩
  rw [E9Map.read_store]
  rfl

/-- The truncation with `BASE_ADDRESS` the identity and no absolute addresses. -/
theorem emitLoaderMap_truncates_size_relative :
    (⟨fun _ => false, id, INTPTR_MIN⟩ : AddressSpace).BASE_ADDRESS 0x400000 = 0x400000 ∧
      ∃ data', emitLoaderMap ⟨fun _ => false, id, INTPTR_MIN⟩ (fun _ => 0) 0 0x400000 0x10000000 0 true false
          true none = .ok (data', E9_MAP_SIZE, none) ∧ (E9Map.read data' 0).size = 0 :=
  ⟨rfl, emitLoaderMap_truncates_size _ _ _ rfl⟩

end E9Patch
