import Mathlib

/-!
# Machine words and the byte buffer

`e9elf.cpp` works on `uint8_t` buffers through pointers, and on `size_t`, `intptr_t`,
`off_t`, `int32_t` and `uint32_t` values. A buffer is a total map from offsets to bytes;
a value of a C integer type is an unbounded `Nat` or `Int` together with the conversion
the C code applies to it. Multi-byte fields are little endian.
-/

namespace E9Patch

/-- `PAGE_SIZE` of `e9patch.h`, a `size_t` constant. -/
def PAGE_SIZE : Nat := 4096

def INTPTR_MIN : Int := -2 ^ 63

/-- Conversion to a 64-bit unsigned type (`size_t`, `uint64_t`, `Elf64_Addr`). -/
def u64 (n : Int) : Nat := (n % 2 ^ 64).toNat

def u32 (n : Int) : Nat := (n % 2 ^ 32).toNat

/-- Conversion to a 64-bit signed type (`intptr_t`, `off_t`): two's complement. -/
def toIntptr (n : Int) : Int := n.bmod (2 ^ 64)

def toInt32 (n : Int) : Int := n.bmod (2 ^ 32)

/-- `size` rounded up to a page, written three times in `emitElf` as
`size % PAGE_SIZE == 0? size: size + PAGE_SIZE - (size % PAGE_SIZE)`. -/
def pageRoundUp (size : Nat) : Nat :=
  if size % PAGE_SIZE = 0 then size else size + PAGE_SIZE - size % PAGE_SIZE

lemma PAGE_SIZE_eq : PAGE_SIZE = 4096 := rfl

lemma PAGE_SIZE_int : (PAGE_SIZE : Int) = 4096 := rfl

lemma pageRoundUp_mod (n : Nat) : pageRoundUp n % PAGE_SIZE = 0 := by
  unfold pageRoundUp PAGE_SIZE
  split <;> omega

lemma le_pageRoundUp (n : Nat) : n ≤ pageRoundUp n := by
  unfold pageRoundUp PAGE_SIZE
  split <;> omega

lemma pageRoundUp_of_mod {n : Nat} (h : n % PAGE_SIZE = 0) : pageRoundUp n = n := by
  simp [pageRoundUp, h]

lemma u64_of_lt {n : Int} (h0 : 0 ≤ n) (h1 : n < 2 ^ 64) : (u64 n : Int) = n := by
  rw [u64, Int.emod_eq_of_lt h0 h1, Int.toNat_of_nonneg h0]

lemma u64_natCast {n : Nat} (h : n < 2 ^ 64) : u64 n = n := by
  have := u64_of_lt (Int.natCast_nonneg n) (by exact_mod_cast h)
  exact_mod_cast this

lemma u32_natCast (n : Nat) : u32 n = n % 2 ^ 32 := by
  unfold u32
  omega

lemma u32_of_lt {n : Int} (h0 : 0 ≤ n) (h1 : n < 2 ^ 32) : (u32 n : Int) = n := by
  rw [u32, Int.emod_eq_of_lt h0 h1, Int.toNat_of_nonneg h0]

lemma toIntptr_of_lt {n : Int} (h0 : -2 ^ 63 ≤ n) (h1 : n < 2 ^ 63) : toIntptr n = n := by
  unfold toIntptr
  rw [Int.bmod_def]
  by_cases hn : 0 ≤ n
  · rw [Int.emod_eq_of_lt hn (by omega)]
    simp only [show n < ((2 ^ 64 : Nat) + 1 : Int) / 2 by omega, if_true]
  · have he : n % ((2 ^ 64 : Nat) : Int) = n + 2 ^ 64 := by
      rw [← Int.add_mul_emod_self (b := 1)]
      exact Int.emod_eq_of_lt (by omega) (by omega)
    rw [he, if_neg (by omega)]
    omega

/-- The address-space macros of `e9patch.h` that this source uses: `IS_ABSOLUTE` and
`BASE_ADDRESS` tell an absolute address from a loader-relative one and strip the tag, and
`RELATIVE_ADDRESS_MIN` is the lowest relative address. They are defined outside this source,
so the model takes them as parameters. -/
structure AddressSpace where
  IS_ABSOLUTE : Int → Bool
  BASE_ADDRESS : Int → Int
  RELATIVE_ADDRESS_MIN : Int

lemma bind_eq_ok {ε α β : Type} {x : Except ε α} {f : α → Except ε β} {b : β} :
    x >>= f = .ok b ↔ ∃ a, x = .ok a ∧ f a = .ok b := by
  cases x <;> simp [bind, Except.bind]

/-- A bind raises no error when its first computation raises none and the rest raises none
after it. -/
lemma exists_ok_bind {ε α β : Type} {x : Except ε α} {f : α → Except ε β}
    (hx : ∃ a, x = .ok a) (hf : ∀ a, x = .ok a → ∃ b, f a = .ok b) : ∃ b, x >>= f = .ok b := by
  obtain ⟨a, rfl⟩ := hx
  exact hf a rfl

/-- A computation whose result, seen through `f`, evaluates to `b` raised no error. -/
lemma exists_ok_of_toOption {ε α β : Type} {x : Except ε α} {f : α → β} {b : β}
    (h : x.toOption.map f = some b) : ∃ a, x = .ok a ∧ f a = b := by
  cases x with
  | error e => cases h
  | ok a => exact ⟨a, rfl, Option.some.inj h⟩

/-- A guard `if c then throw e` that let the computation through was false. -/
lemma ok_of_ite_throw {ε α : Type} {c : Prop} [Decidable c] {e : ε} {x : Except ε α} {b : α}
    (h : (if c then throw e else x) = .ok b) : ¬c ∧ x = .ok b := by
  by_cases hc : c
  · rw [if_pos hc] at h
    cases h
  · rw [if_neg hc] at h
    exact ⟨hc, h⟩

lemma ite_throw_eq_ok {ε α : Type} {c : Prop} [Decidable c] {e : ε} {x : Except ε α} {b : α} :
    (if c then throw e else x) = .ok b ↔ ¬c ∧ x = .ok b :=
  ⟨ok_of_ite_throw, fun ⟨hc, h⟩ => by rw [if_neg hc, h]⟩

/-- What every step of an `Except` loop keeps holds after the whole loop. -/
lemma foldlM_inv {ε α β : Type} {f : β → α → Except ε β} (P : β → Prop) {l : List α}
    (hstep : ∀ b a b', a ∈ l → P b → f b a = .ok b' → P b') :
    ∀ {b b'}, P b → l.foldlM f b = .ok b' → P b' := by
  induction l with
  | nil =>
    intro b b' hb h
    cases h
    exact hb
  | cons a l ih =>
    intro b b' hb h
    obtain ⟨b₁, h₁, h₂⟩ := bind_eq_ok.mp h
    exact ih (fun b a b' ha => hstep b a b' (List.mem_cons_of_mem _ ha))
      (hstep b a b₁ (List.mem_cons_self a l) hb h₁) h₂

lemma foldlM_flatMap {ε α β γ : Type} (f : β → γ → Except ε β) (g : α → List γ) (l : List α)
    (b : β) : (l.flatMap g).foldlM f b = l.foldlM (fun b a => (g a).foldlM f b) b := by
  induction l generalizing b with
  | nil => rfl
  | cons a l ih =>
    simp only [List.flatMap_cons, List.foldlM_append, List.foldlM_cons]
    exact congrArg _ (funext fun b' => ih b')

lemma foldlM_filter {ε α β : Type} (f : β → α → Except ε β) (p : α → Bool) (l : List α) (b : β) :
    (l.filter p).foldlM f b = l.foldlM (fun b a => if p a then f b a else pure b) b := by
  induction l generalizing b with
  | nil => rfl
  | cons a l ih =>
    by_cases h : p a
    · simp only [List.filter_cons_of_pos h, List.foldlM_cons, h, if_true]
      exact congrArg _ (funext fun b' => ih b')
    · simp only [List.filter_cons_of_neg h, List.foldlM_cons, h, Bool.false_eq_true, if_false]
      exact ih b

/-- A byte buffer such as `B->patched.bytes`, indexed by offset. -/
abbrev Mem := Nat → UInt8

namespace Mem

/-- `memcpy(m + pos, bs, |bs|)`: the bytes `bs` stored at `pos`. -/
def write (m : Mem) (pos : Nat) (bs : List UInt8) : Mem :=
  fun i => if pos ≤ i ∧ i < pos + bs.length then bs.getD (i - pos) 0 else m i

/-- `memcpy(dst + dpos, src + spos, n)`. The source is read before anything is stored,
which is what `memcpy` does whenever the two ranges do not overlap. -/
def copy (dst : Mem) (dpos : Nat) (src : Mem) (spos n : Nat) : Mem :=
  fun i => if dpos ≤ i ∧ i < dpos + n then src (spos + (i - dpos)) else dst i

def readLE (m : Mem) (pos : Nat) : Nat → Nat
  | 0 => 0
  | w + 1 => (m pos).toNat + 256 * m.readLE (pos + 1) w

end Mem

def leBytes : Nat → Nat → List UInt8
  | 0, _ => []
  | w + 1, v => UInt8.ofNat v :: leBytes w (v / 256)

def Mem.writeLE (m : Mem) (pos w v : Nat) : Mem := m.write pos (leBytes w v)

@[simp] lemma leBytes_length (w v : Nat) : (leBytes w v).length = w := by
  induction w generalizing v with
  | zero => rfl
  | succ w ih => simp [leBytes, ih]

lemma UInt8.ofNat_toNat' (a : Nat) : (UInt8.ofNat a).toNat = a % 256 := by
  show (BitVec.ofNat 8 a).toNat = _
  simp only [BitVec.toNat_ofNat]

lemma leBytes_mod (w v : Nat) : leBytes w (v % 256 ^ w) = leBytes w v := by
  induction w generalizing v with
  | zero => rfl
  | succ w ih =>
    simp only [leBytes, List.cons.injEq]
    constructor
    · apply UInt8.ext
      rw [UInt8.ofNat_toNat', UInt8.ofNat_toNat', Nat.pow_succ', Nat.mod_mul_right_mod]
    · rw [Nat.pow_succ', Nat.mod_mul_right_div_self, ih]

lemma leBytes_congr {w v v' : Nat} (h : v % 256 ^ w = v' % 256 ^ w) : leBytes w v = leBytes w v' := by
  rw [← leBytes_mod, h, leBytes_mod]

namespace Mem

variable {m m' : Mem} {pos i : Nat} {bs : List UInt8}

lemma write_of_lt (h : i < pos) : m.write pos bs i = m i := by
  simp [write, show ¬pos ≤ i by omega]

lemma write_of_ge (h : pos + bs.length ≤ i) : m.write pos bs i = m i := by
  simp [write, show ¬i < pos + bs.length by omega]

lemma write_of_not_mem (h : i < pos ∨ pos + bs.length ≤ i) : m.write pos bs i = m i := by
  rcases h with h | h
  · exact write_of_lt h
  · exact write_of_ge h

lemma write_add {k : Nat} (h : k < bs.length) : m.write pos bs (pos + k) = bs[k] := by
  simp [write, h, List.getD_eq_getElem?_getD, List.getElem?_eq_getElem h, Nat.add_sub_cancel_left]

lemma copy_of_not_mem {dst src : Mem} {dpos spos n : Nat} (h : i < dpos ∨ dpos + n ≤ i) :
    dst.copy dpos src spos n i = dst i := by
  simp only [copy]
  rw [if_neg (by omega)]

lemma copy_add {dst src : Mem} {dpos spos n k : Nat} (h : k < n) :
    dst.copy dpos src spos n (dpos + k) = src (spos + k) := by
  simp [copy, h, Nat.add_sub_cancel_left]

lemma write_append (m : Mem) (p : Nat) (a b : List UInt8) :
    (m.write p a).write (p + a.length) b = m.write p (a ++ b) := by
  funext i
  simp only [write, List.length_append]
  by_cases h1 : p + a.length ≤ i ∧ i < p + a.length + b.length
  · rw [if_pos h1, if_pos (by omega), List.getD_append_right _ _ _ _ (by omega)]
    congr 1
    omega
  · rw [if_neg h1]
    by_cases h2 : p ≤ i ∧ i < p + a.length
    · rw [if_pos h2, if_pos (by omega), List.getD_append _ _ _ _ (by omega)]
    · rw [if_neg h2, if_neg (by omega)]

@[simp] lemma write_nil (m : Mem) (p : Nat) : m.write p [] = m := by
  funext i
  simp [write]

lemma write_comm (m : Mem) {p q : Nat} {a b : List UInt8} (h : p + a.length ≤ q ∨ q + b.length ≤ p) :
    (m.write p a).write q b = (m.write q b).write p a := by
  funext i
  simp only [write]
  split_ifs <;> first | rfl | omega

lemma write_write_of_length (m : Mem) {p : Nat} {a b : List UInt8} (h : a.length ≤ b.length) :
    (m.write p a).write p b = m.write p b := by
  funext i
  simp only [write]
  split_ifs <;> first | rfl | omega

lemma write_snoc (m : Mem) {p q : Nat} (a b : List UInt8) (h : q = p + a.length) :
    (m.write p a).write q b = m.write p (a ++ b) := by
  rw [h, write_append]

lemma write_overwrite (m : Mem) (p : Nat) (pre x post y : List UInt8) (h : y.length = x.length) :
    (m.write p (pre ++ x ++ post)).write (p + pre.length) y = m.write p (pre ++ y ++ post) := by
  have e : p + (pre ++ x).length = p + (pre ++ y).length := by simp [h]
  rw [← write_append, ← write_append, write_comm _ (by simp; omega),
    write_write_of_length _ (by omega), write_append, e, write_append]

lemma write_self {m : Mem} {p : Nat} {a : List UInt8} (h : ∀ k < a.length, m (p + k) = a.getD k 0) :
    m.write p a = m := by
  funext i
  simp only [write]
  split_ifs with hi
  · rw [← h (i - p) (by omega), Nat.add_sub_cancel' hi.1]
  · rfl

lemma toNat_lt_256 (b : UInt8) : b.toNat < 256 := b.toBitVec.isLt

lemma readLE_lt (m : Mem) (pos w : Nat) : m.readLE pos w < 256 ^ w := by
  induction w generalizing pos with
  | zero => simp [readLE]
  | succ w ih =>
    have h1 := ih (pos + 1)
    have h2 := toNat_lt_256 (m pos)
    rw [readLE, Nat.pow_succ']
    omega

lemma readLE_congr {w : Nat} (h : ∀ k < w, m (pos + k) = m' (pos + k)) :
    m.readLE pos w = m'.readLE pos w := by
  induction w generalizing pos with
  | zero => rfl
  | succ w ih =>
    have h0 := h 0 (by omega)
    simp only [Nat.add_zero] at h0
    simp only [readLE, h0, @ih (pos + 1) (fun k hk => by
      simpa only [Nat.add_assoc, Nat.add_comm 1 k] using h (k + 1) (by omega))]

lemma readLE_write_of_disjoint {w : Nat} (h : pos + w ≤ i ∨ i + bs.length ≤ pos) :
    (m.write i bs).readLE pos w = m.readLE pos w :=
  readLE_congr fun k hk => write_of_not_mem (by omega)

lemma readLE_writeLE_self (m : Mem) (pos w v : Nat) :
    (m.writeLE pos w v).readLE pos w = v % 256 ^ w := by
  induction w generalizing pos v m with
  | zero => simp [readLE, Nat.mod_one]
  | succ w ih =>
    have h0 : m.writeLE pos (w + 1) v pos = UInt8.ofNat v := by
      simpa using @write_add m pos (leBytes (w + 1) v) 0 (by simp)
    have h1 : (m.writeLE pos (w + 1) v).readLE (pos + 1) w =
        (m.writeLE (pos + 1) w (v / 256)).readLE (pos + 1) w := by
      refine readLE_congr fun k hk => ?_
      have e := @write_add m pos (leBytes (w + 1) v) (k + 1) (by simp; omega)
      have e' := @write_add m (pos + 1) (leBytes w (v / 256)) k (by simpa using hk)
      simp only [writeLE, ← Nat.add_assoc, Nat.add_right_comm pos k 1] at e e' ⊢
      rw [e, e']
      simp [leBytes]
    rw [readLE, h0, h1, ih, Nat.pow_succ', Nat.mod_mul]
    rfl

lemma readLE_eq_zero {w : Nat} (h : ∀ k < w, m (pos + k) = 0) : m.readLE pos w = 0 := by
  induction w generalizing pos with
  | zero => rfl
  | succ w ih =>
    have h0 := h 0 (by omega)
    simp only [Nat.add_zero] at h0
    rw [readLE, h0, @ih (pos + 1) fun k hk => by
      simpa only [Nat.add_assoc, Nat.add_comm 1 k] using h (k + 1) (by omega)]
    rfl

lemma readLE_write_leBytes (m : Mem) (p w v : Nat) (pre post : List UInt8) :
    (m.write p (pre ++ leBytes w v ++ post)).readLE (p + pre.length) w = v % 256 ^ w := by
  rw [← write_append, readLE_write_of_disjoint (by simp only [List.length_append, leBytes_length]; omega),
    ← write_append]
  exact readLE_writeLE_self _ _ _ _

end Mem

/-- A packed record of little-endian fields: each field's width in bytes and value, in
order. -/
abbrev Fields := List (Nat × Nat)

def Fields.bytes (fs : Fields) : List UInt8 := fs.flatMap fun f => leBytes f.1 f.2

def Fields.offset (fs : Fields) (j : Nat) : Nat := ((fs.take j).map Prod.fst).sum

namespace Fields

@[simp] lemma bytes_length (fs : Fields) : fs.bytes.length = (fs.map Prod.fst).sum := by
  induction fs with
  | nil => rfl
  | cons f fs ih =>
    show (leBytes f.1 f.2 ++ bytes fs).length = _
    simp [ih]

lemma bytes_split (fs : Fields) {j : Nat} (hj : j < fs.length) :
    fs.bytes = bytes (fs.take j) ++ leBytes fs[j].1 fs[j].2 ++ bytes (fs.drop (j + 1)) := by
  have e : fs = fs.take j ++ fs[j] :: fs.drop (j + 1) := by
    rw [← List.drop_eq_getElem_cons hj, List.take_append_drop]
  conv_lhs => rw [e]
  rw [bytes, List.flatMap_append, List.flatMap_cons, ← List.append_assoc]
  rfl

lemma take_bytes_length (fs : Fields) (j : Nat) : (bytes (fs.take j)).length = fs.offset j := by
  simp [offset]

lemma readLE_write (m : Mem) (p : Nat) (fs : Fields) {j o : Nat} (hj : j < fs.length)
    (ho : fs.offset j = o) (rest : List UInt8) :
    (m.write p (fs.bytes ++ rest)).readLE (p + o) fs[j].1 = fs[j].2 % 256 ^ fs[j].1 := by
  rw [bytes_split fs hj, List.append_assoc _ _ rest, ← ho, ← take_bytes_length]
  exact Mem.readLE_write_leBytes _ _ _ _ _ _

/-- Storing field `j` of a stored record updates the record. -/
lemma write_set (m : Mem) (p : Nat) (fs : Fields) {j o : Nat} (hj : j < fs.length)
    (ho : fs.offset j = o) (v : Nat) (rest : List UInt8) :
    (m.write p (fs.bytes ++ rest)).writeLE (p + o) fs[j].1 v =
      m.write p (bytes (fs.set j (fs[j].1, v)) ++ rest) := by
  have hset : bytes (fs.set j (fs[j].1, v)) =
      bytes (fs.take j) ++ leBytes fs[j].1 v ++ bytes (fs.drop (j + 1)) := by
    rw [List.set_eq_take_cons_drop _ hj]
    simp [bytes, List.flatMap_append, List.append_assoc]
  rw [bytes_split fs hj, hset, List.append_assoc _ _ rest, List.append_assoc _ _ rest,
    ← ho, ← take_bytes_length, Mem.writeLE]
  exact Mem.write_overwrite _ _ _ _ _ _ (by simp)

end Fields

end E9Patch
