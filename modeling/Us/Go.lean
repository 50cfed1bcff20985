import Mathlib

/-!
# The Go runtime the models share

* `Bytes`: a `[]byte` or a `string` (Go strings are byte strings). `Bytes.lt` is the order of
  `sort.Strings` and of bolt's `bytes.Compare` (lexicographic on unsigned bytes); `sortStrings`
  sorts a list of keys in it, and two strictly sorted lists with the same members are equal
  (`eq_of_sorted_of_mem_iff`), which is how the two stores' listings are compared.
* `ByteArr n`: a `[n]byte` array; it carries its length, so no array of another length can be built.
* `le64`/`decLE64`: `binary.LittleEndian.PutUint64` and `encoding.DecUint64`, with the round trip
  `decLE64_le64`.
* `GoMap`: a Go map as an association list. Its order is the model's iteration order; Go's is
  unspecified, and no result below depends on it.
* `Panic`: the run-time panics the code can raise; `append` panics past the largest slice length
  (`maxInt`), so every slice of a reachable state is shorter than `2 ^ 63`.
* `ByteSlice`: a `[]byte` over its backing array, for code that reslices up to the capacity and
  writes through `copy`; `appendBytes` writes in place or moves to a larger array, and every write
  is described by what it does to the slice's bytes (`bytes_write`, `bytes_appendBytes`).
-/

set_option autoImplicit false

namespace Us

/-- A Go `[]byte` or `string`. -/
abbrev Bytes := List UInt8

instance uint8IsStrictTotalOrder : IsStrictTotalOrder UInt8 (· < ·) where
  trichotomous a b := by
    rcases Nat.lt_trichotomy a.toNat b.toNat with h | h | h
    · exact .inl h
    · exact .inr (.inl (UInt8.toNat.inj h))
    · exact .inr (.inr h)
  irrefl a := Nat.lt_irrefl a.toNat
  trans _ _ _ := Nat.lt_trans

/-- `a < b` as Go compares strings: lexicographically on unsigned bytes, a proper prefix first. -/
def Bytes.lt (a b : Bytes) : Prop := List.Lex (· < ·) a b

instance : DecidableRel Bytes.lt := fun a b => List.Lex.decidableRel _ a b

instance : IsStrictTotalOrder Bytes Bytes.lt :=
  { (isStrictWeakOrder_of_isOrderConnected : IsStrictWeakOrder Bytes (List.Lex (· < ·))),
    (inferInstance : IsTrichotomous Bytes (List.Lex (· < ·))) with }

theorem Bytes.lt_irrefl (a : Bytes) : ¬ Bytes.lt a a := irrefl_of Bytes.lt a

theorem Bytes.lt_trans {a b c : Bytes} : Bytes.lt a b → Bytes.lt b c → Bytes.lt a c :=
  trans_of Bytes.lt

theorem Bytes.lt_trichotomy (a b : Bytes) : Bytes.lt a b ∨ a = b ∨ Bytes.lt b a :=
  trichotomous_of Bytes.lt a b

/-- `sort.Strings`: the keys in ascending order. -/
def sortStrings (keys : List Bytes) : List Bytes :=
  keys.mergeSort fun a b => !decide (Bytes.lt b a)

theorem sortStrings_perm (keys : List Bytes) : (sortStrings keys).Perm keys :=
  List.mergeSort_perm _ _

/-- Sorting distinct keys gives a strictly ascending list. -/
theorem sortStrings_sorted {keys : List Bytes} (h : keys.Nodup) :
    (sortStrings keys).Pairwise Bytes.lt := by
  have hs : (sortStrings keys).Pairwise fun a b => (!decide (Bytes.lt b a)) = true :=
    List.sorted_mergeSort (fun a b c hab hbc => by
      simp only [Bool.not_eq_true', decide_eq_false_iff_not] at hab hbc ⊢
      rcases Bytes.lt_trichotomy a b with h1 | rfl | h1
      · rcases Bytes.lt_trichotomy b c with h2 | rfl | h2
        · exact fun h3 => hab (Bytes.lt_trans h2 h3)
        · exact hab
        · exact (hbc h2).elim
      · exact hbc
      · exact (hab h1).elim)
    (fun a b => by
      rcases Bytes.lt_trichotomy a b with h1 | rfl | h1 <;>
        simp [*, asymm_of Bytes.lt, Bytes.lt_irrefl]) keys
  have hn : (sortStrings keys).Nodup := (sortStrings_perm keys).nodup_iff.2 h
  refine (hs.and hn).imp fun {a b} ⟨hab, hne⟩ => ?_
  rcases Bytes.lt_trichotomy a b with h1 | rfl | h1
  · exact h1
  · exact (hne rfl).elim
  · simp [h1] at hab

/-- Two strictly ascending lists of keys with the same members are equal. -/
theorem eq_of_sorted_of_mem_iff {l₁ l₂ : List Bytes} (h₁ : l₁.Pairwise Bytes.lt)
    (h₂ : l₂.Pairwise Bytes.lt) (h : ∀ k, k ∈ l₁ ↔ k ∈ l₂) : l₁ = l₂ :=
  List.eq_of_perm_of_sorted ((List.perm_ext_iff_of_nodup h₁.nodup h₂.nodup).2 h) h₁ h₂

/-- A Go `[n]byte` array. -/
structure ByteArr (n : Nat) where
  toList : Bytes
  length_toList : toList.length = n
deriving DecidableEq, Repr

/-- The zero value of `[n]byte`. -/
def ByteArr.zero (n : Nat) : ByteArr n := ⟨List.replicate n 0, List.length_replicate _ _⟩

instance (n : Nat) : Inhabited (ByteArr n) := ⟨ByteArr.zero n⟩

/-! ## Little-endian integers -/

/-- The `w` low bytes of `x`, least significant first. -/
def leBytes : Nat → Nat → Bytes
  | 0, _ => []
  | w + 1, x => UInt8.ofNat (x % 256) :: leBytes w (x / 256)

/-- The number whose little-endian bytes are `b`. -/
def leNat : Bytes → Nat
  | [] => 0
  | a :: b => a.toNat + 256 * leNat b

@[simp] theorem length_leBytes (w x : Nat) : (leBytes w x).length = w := by
  induction w generalizing x <;> simp [leBytes, *]

theorem leNat_leBytes (w x : Nat) : leNat (leBytes w x) = x % 256 ^ w := by
  induction w generalizing x with
  | zero => simp [leBytes, leNat, Nat.mod_one]
  | succ w ih =>
    simp only [leBytes, leNat, ih, Nat.pow_succ]
    rw [UInt8.toNat_ofNat_of_lt (Nat.mod_lt _ (by decide)), Nat.mul_comm (256 ^ w), Nat.mod_mul]

theorem leNat_lt (b : Bytes) : leNat b < 256 ^ b.length := by
  induction b with
  | nil => simp [leNat]
  | cons a b ih =>
    have := a.toNat_lt_size
    simp only [leNat, List.length_cons, Nat.pow_succ]
    change a.toNat < 256 at this
    omega

theorem toNat_ofNat64 (n : Nat) : (UInt64.ofNat n).toNat = n % 2 ^ 64 := BitVec.toNat_ofNat _ _

theorem toNat_ofNat32 (n : Nat) : (UInt32.ofNat n).toNat = n % 2 ^ 32 := BitVec.toNat_ofNat _ _

theorem ofNat_toNat64 (x : UInt64) : UInt64.ofNat x.toNat = x := by
  have hx : x.toNat < 2 ^ 64 := x.toNat_lt_size
  exact UInt64.toNat.inj (by rw [toNat_ofNat64, Nat.mod_eq_of_lt hx])

theorem toNat_add64 (a b : UInt64) : (a + b).toNat = (a.toNat + b.toNat) % 2 ^ 64 :=
  BitVec.toNat_add _ _

/-- `id - 1` for an id of at least 1. -/
theorem toNat_sub_one64 {a : UInt64} (h : 1 ≤ a.toNat) : (a - 1).toNat = a.toNat - 1 := by
  have : a.toNat < 2 ^ 64 := a.toNat_lt_size
  show (a.toBitVec - 1#64).toNat = _
  rw [BitVec.toNat_sub]
  change (2 ^ 64 - 1 + a.toNat) % 2 ^ 64 = _
  omega

/-- `0 - 1` wraps to the largest `uint64`. -/
theorem toNat_zero_sub_one64 : ((0 : UInt64) - 1).toNat = 2 ^ 64 - 1 := rfl

/-- `binary.LittleEndian.PutUint64`: the eight bytes of `x`. -/
def le64 (x : UInt64) : Bytes := leBytes 8 x.toNat

/-- `encoding.DecUint64` (`binary.LittleEndian.Uint64`): the integer in the first eight bytes. -/
def decLE64 (b : Bytes) : UInt64 := UInt64.ofNat (leNat (b.take 8))

@[simp] theorem length_le64 (x : UInt64) : (le64 x).length = 8 := length_leBytes _ _

@[simp] theorem decLE64_le64 (x : UInt64) (rest : Bytes) : decLE64 (le64 x ++ rest) = x := by
  have h8 : (le64 x ++ rest).take 8 = le64 x := by
    simpa only [length_le64] using List.take_left (le64 x) rest
  have hx : x.toNat < 256 ^ 8 := x.toNat_lt_size
  rw [decLE64, h8, le64, leNat_leBytes, Nat.mod_eq_of_lt hx, ofNat_toNat64]

theorem le64_injective {x y : UInt64} (h : le64 x = le64 y) : x = y := by
  have := congrArg (fun b => decLE64 (b ++ [])) h
  simpa only [decLE64_le64] using this

/-! ## Maps -/

/-- A Go map `map[κ]ν`. -/
abbrev GoMap (κ ν : Type) := AList fun _ : κ => ν

/-- `m[k]` for an integer-valued map: the zero value when `k` is absent. -/
def GoMap.getD {κ : Type} [DecidableEq κ] (m : GoMap κ Int) (k : κ) : Int := (m.lookup k).getD 0

/-- `m[k] += d`; the key is present afterwards, also when the sum is zero. -/
def GoMap.add {κ : Type} [DecidableEq κ] (m : GoMap κ Int) (k : κ) (d : Int) : GoMap κ Int :=
  m.insert k (m.getD k + d)

@[simp] theorem GoMap.getD_add {κ : Type} [DecidableEq κ] (m : GoMap κ Int) (k j : κ) (d : Int) :
    (m.add k d).getD j = m.getD j + if j = k then d else 0 := by
  by_cases h : j = k
  · subst h; simp [GoMap.add, GoMap.getD]
  · simp [GoMap.add, GoMap.getD, AList.lookup_insert_ne h, h]

@[simp] theorem GoMap.mem_add {κ : Type} [DecidableEq κ] (m : GoMap κ Int) (k j : κ) (d : Int) :
    j ∈ m.add k d ↔ j = k ∨ j ∈ m := AList.mem_insert m

/-! ## Panics -/

/-- A run-time panic: an index or a slice bound out of range, `make([]T, n)` with a negative `n`,
`append` past the largest length a slice can have, a method called on a nil interface value (a nil
`net.Conn`), and an explicit `panic(msg)`. -/
inductive Panic where
  | indexOutOfRange
  | makeSliceLen
  | growSliceLen
  | nilDereference
  | explicit (msg : String)
deriving DecidableEq, Repr

/-! ## Computations that may panic -/

@[simp] theorem bind_ok {α β : Type} {x : Except Panic α} {f : α → Except Panic β} {b : β} :
    x >>= f = .ok b ↔ ∃ a, x = .ok a ∧ f a = .ok b := by
  cases x <;> simp [bind, Except.bind]

@[simp] theorem bind_error {α β : Type} {x : Except Panic α} {f : α → Except Panic β} {p : Panic} :
    x >>= f = .error p ↔ x = .error p ∨ ∃ a, x = .ok a ∧ f a = .error p := by
  cases x <;> simp [bind, Except.bind]

@[simp] theorem map_ok {α β : Type} {x : Except Panic α} {f : α → β} {b : β} :
    f <$> x = .ok b ↔ ∃ a, x = .ok a ∧ f a = b := by
  cases x <;> simp [Functor.map, Except.map]

@[simp] theorem error_bind {ε α β : Type} (e : ε) (f : α → Except ε β) : (Except.error e >>= f) = .error e :=
  rfl

@[simp] theorem ok_bind {ε α β : Type} (a : α) (f : α → Except ε β) : (Except.ok a >>= f) = f a :=
  rfl

@[simp] theorem pure_ok {α : Type} {a b : α} : (pure a : Except Panic α) = .ok b ↔ a = b := by
  simp [pure, Except.pure]

/-- A step that may panic, lifted into a computation with state: its value, the state unchanged. -/
@[simp] theorem run_liftM_ok {σ α : Type} (a : α) (s : σ) :
    (liftM (Except.ok a : Except Panic α) : StateT σ (Except Panic) α).run s = .ok (a, s) :=
  rfl

@[simp] theorem run_liftM_error {σ α : Type} (p : Panic) (s : σ) :
    (liftM (Except.error p : Except Panic α) : StateT σ (Except Panic) α).run s = .error p :=
  rfl

/-- The largest Go `int`, the bound on a slice's length. -/
def maxInt : Nat := 2 ^ 63 - 1

/-- `append(s, a)`. -/
def append {α : Type} (s : List α) (a : α) : Except Panic (List α) :=
  if s.length < maxInt then .ok (s ++ [a]) else .error .growSliceLen

theorem append_error {α : Type} {s : List α} {a : α} {p : Panic} (h : append s a = .error p) :
    p = .growSliceLen := by
  unfold append at h; split at h <;> simp_all [eq_comm]

theorem append_ok {α : Type} {s s' : List α} {a : α} :
    append s a = .ok s' ↔ s.length < maxInt ∧ s' = s ++ [a] := by
  unfold append; split <;> simp_all [eq_comm]

/-! ## Byte slices -/

/-- A Go `[]byte` with its backing array: `arr` is the array from the slice's first element on, so
`cap(s)` is its length, and the slice is its first `len` bytes. -/
structure ByteSlice where
  arr : Bytes
  len : Nat
  len_le : len ≤ arr.length

namespace ByteSlice

/-- The bytes of the slice, what a function given `s` reads. -/
def bytes (s : ByteSlice) : Bytes := s.arr.take s.len

/-- `make([]byte, n)`. -/
def make (n : Nat) : ByteSlice := ⟨List.replicate n 0, n, by simp⟩

/-- `src` written into the array from index `k` on, the length unchanged. -/
def write (s : ByteSlice) (k : Nat) (src : Bytes) : ByteSlice :=
  ⟨s.arr.take k ++ src ++ s.arr.drop (k + src.length), s.len, by have := s.len_le; simp; omega⟩

/-- `s[i] = b`. -/
def set (s : ByteSlice) (i : Nat) (b : UInt8) : Except Panic ByteSlice :=
  if i < s.len then .ok (s.write i [b]) else .error .indexOutOfRange

/-- `copy(s[k:], src)`, which copies `min(len(s) - k, len(src))` bytes; `s[k:]` past the length
panics. -/
def copyAt (s : ByteSlice) (k : Nat) (src : Bytes) : Except Panic ByteSlice :=
  if k ≤ s.len then .ok (s.write k (src.take (s.len - k))) else .error .indexOutOfRange

/-- `binary.LittleEndian.PutUint64(s[k:], v)`, which first indexes `s[k+7]`. -/
def putUint64At (s : ByteSlice) (k : Nat) (v : UInt64) : Except Panic ByteSlice :=
  if k + 8 ≤ s.len then .ok (s.write k (le64 v)) else .error .indexOutOfRange

/-- `s[:n]`, which may reach past the length up to the capacity. -/
def reslice (s : ByteSlice) (n : Nat) : Except Panic ByteSlice :=
  if h : n ≤ s.arr.length then .ok ⟨s.arr, n, h⟩ else .error .indexOutOfRange

/-- The capacity `growslice` gives a slice of capacity `c` grown to `n > c` elements: double, or
`n` if doubling is not enough. Go also rounds it up to an allocation size class, and grows large
slices by less than double; nothing below depends on more than `n ≤ nextCap c n`. -/
def nextCap (c n : Nat) : Nat := max n (2 * c)

/-- `append(s, b...)`: in place when the capacity suffices, else into a new zeroed array of
capacity `nextCap`. Its panic past the largest length is left out: that needs more memory than a
process has. -/
def appendBytes (s : ByteSlice) (b : Bytes) : ByteSlice :=
  if h : s.len + b.length ≤ s.arr.length then
    ⟨s.arr.take s.len ++ b ++ s.arr.drop (s.len + b.length), s.len + b.length, by simp; omega⟩
  else
    ⟨s.arr.take s.len ++ b ++
      List.replicate (nextCap s.arr.length (s.len + b.length) - (s.len + b.length)) 0,
      s.len + b.length, by have := s.len_le; simp; omega⟩

@[simp] theorem length_bytes (s : ByteSlice) : s.bytes.length = s.len := by
  simp [bytes, s.len_le]

@[simp] theorem len_make (n : Nat) : (make n).len = n := rfl

@[simp] theorem length_arr_make (n : Nat) : (make n).arr.length = n := List.length_replicate _ _

@[simp] theorem bytes_make (n : Nat) : (make n).bytes = List.replicate n 0 := by
  simp [make, bytes]

@[simp] theorem len_write (s : ByteSlice) (k : Nat) (src : Bytes) : (s.write k src).len = s.len :=
  rfl

theorem length_arr_write {s : ByteSlice} {k : Nat} {src : Bytes} (h : k + src.length ≤ s.len) :
    (s.write k src).arr.length = s.arr.length := by
  have := s.len_le; simp [write]; omega

theorem bytes_write {s : ByteSlice} {k : Nat} {src : Bytes} (h : k + src.length ≤ s.len) :
    (s.write k src).bytes = s.bytes.take k ++ src ++ s.bytes.drop (k + src.length) := by
  have := s.len_le
  have h1 : min s.len k = k := by omega
  have h2 : min k s.arr.length = k := by omega
  have h3 : min k s.len = k := by omega
  simp only [write, bytes, List.take_append_eq_append_take, List.length_append, List.length_take,
    List.take_take, List.drop_take, List.append_assoc, h1, h2, h3, Nat.sub_sub,
    List.take_of_length_le (show src.length ≤ s.len - k by omega)]

theorem set_of_lt {s : ByteSlice} {i : Nat} (b : UInt8) (h : i < s.len) :
    s.set i b = .ok (s.write i [b]) :=
  if_pos h

theorem copyAt_of_le {s : ByteSlice} {k : Nat} {src : Bytes} (h : k + src.length ≤ s.len) :
    s.copyAt k src = .ok (s.write k src) := by
  rw [copyAt, if_pos (by omega), List.take_of_length_le (by omega)]

theorem putUint64At_of_le {s : ByteSlice} {k : Nat} (v : UInt64) (h : k + 8 ≤ s.len) :
    s.putUint64At k v = .ok (s.write k (le64 v)) :=
  if_pos h

theorem reslice_of_le {s : ByteSlice} {n : Nat} (h : n ≤ s.arr.length) :
    s.reslice n = .ok ⟨s.arr, n, h⟩ :=
  dif_pos h

/-- `s[:n]` within the length keeps the first `n` bytes. -/
theorem bytes_reslice_of_le {s : ByteSlice} {n : Nat} (h : n ≤ s.arr.length) (hn : n ≤ s.len) :
    (⟨s.arr, n, h⟩ : ByteSlice).bytes = s.bytes.take n := by
  simp [bytes, List.take_take, Nat.min_eq_left hn]

@[simp] theorem len_appendBytes (s : ByteSlice) (b : Bytes) :
    (s.appendBytes b).len = s.len + b.length := by
  unfold appendBytes; split <;> rfl

theorem length_arr_le_appendBytes (s : ByteSlice) (b : Bytes) :
    s.arr.length ≤ (s.appendBytes b).arr.length := by
  have := s.len_le
  unfold appendBytes; split <;> simp [nextCap] <;> omega

@[simp] theorem bytes_appendBytes (s : ByteSlice) (b : Bytes) :
    (s.appendBytes b).bytes = s.bytes ++ b := by
  have h := Nat.min_eq_left s.len_le
  unfold appendBytes; split <;> simp [bytes, List.take_append_eq_append_take, h]

end ByteSlice

end Us
