import Us.Store.Records

/-!
# The Sia encoding of the store's records

`BoltMetaDB` stores each record as `encoding.Marshal` of it (`encoding.MarshalAll(b.Chunks, b.Seed)`
for a blob) and reads it back with `encoding.Unmarshal`. The encoding is Sia's (a library, not in the
source here): an unsigned integer of any width as eight little-endian bytes, a string or a slice as
its length so encoded followed by its elements, an array as its elements, a struct as its fields in
order. A decoder (`Dec`) reads a prefix and returns the rest, or fails when the bytes run out or a
length prefix asks for more than it may still allocate (`nextPrefix`); `Unmarshal` lets it allocate
three times the length of what it decodes.

* `decShard_encShard`, `decChunk_encChunk`, `decBlob_encBlob`: decoding what was encoded gives the
  record back, whenever its strings and slices are shorter than `2^31` and their bytes fit what may
  be allocated (a blob's key is not encoded: it is the one decoded into).
* `unmarshal_encShard`, `unmarshal_encChunk`, `unmarshal_encBlob`: so `unmarshal` of a stored
  record is that record, as a record never allocates more than its encoding's length.
* `length_encShard`, `length_encChunk`, `length_encBlob`: the encodings' lengths, which bolt's
  `MaxValueSize` bounds.
-/
set_option autoImplicit false

namespace Us.Store

/-! ## Encoders -/

/-- A string or a `[]byte`: its length, then its bytes. -/
def encBytes (b : Bytes) : Bytes := le64 (UInt64.ofNat b.length) ++ b

/-- A `[]uint64`: its length, then each element. -/
def encU64s (l : List UInt64) : Bytes := le64 (UInt64.ofNat l.length) ++ l.flatMap le64

/-- `encoding.Marshal(s)` of a `DBShard`. -/
def encShard (s : DBShard) : Bytes :=
  encBytes s.hostKey ++ s.sectorRoot.toList ++ le64 s.offset.toUInt64 ++ s.nonce.toList

/-- `encoding.Marshal(c)` of a `DBChunk`. -/
def encChunk (c : DBChunk) : Bytes :=
  le64 c.id ++ encU64s c.shards ++ le64 c.minShards.toUInt64 ++ le64 c.len

/-- `encoding.MarshalAll(b.Chunks, b.Seed)`, the value a blob is stored as. -/
def encBlob (b : DBBlob) : Bytes := encU64s b.chunks ++ b.seed.toList

/-! ## Decoders

Sia's `Decoder` counts the bytes it may still allocate. `NextPrefix(elemSize)` refuses a slice of
more than `1<<31 - 1` elements, or one whose elements, at `elemSize` bytes each, need more than may
still be allocated, and takes them from it; fixed-size values allocate nothing. -/

/-- A decoder: from the input and the bytes it may still allocate, the value, the rest of the
input and what may still be allocated; or a failure. -/
abbrev Dec (α : Type) : Type := Bytes → Nat → Option (α × Bytes × Nat)

/-- `Decoder.NextUint64`: an unsigned integer. -/
def decU64 : Dec UInt64 := fun b a =>
  if 8 ≤ b.length then some (decLE64 b, b.drop 8, a) else none

/-- `Decoder.NextPrefix(elemSize)`: the length of a slice of elements of `elemSize` bytes. -/
def nextPrefix (elemSize : Nat) : Dec Nat := fun b a => do
  let (n, b, a) ← decU64 b a
  if n.toNat ≤ 2 ^ 31 - 1 ∧ n.toNat * elemSize ≤ a then some (n.toNat, b, a - n.toNat * elemSize)
  else none

/-- `Decoder.ReadPrefixedBytes`: a string or a `[]byte`, of `NextPrefix(1)` bytes. -/
def decBytes : Dec Bytes := fun b a => do
  let (n, b, a) ← nextPrefix 1 b a
  if n ≤ b.length then some (b.take n, b.drop n, a) else none

/-- An `[n]byte` array. -/
def decArr (n : Nat) : Dec (ByteArr n) := fun b a =>
  if h : n ≤ b.length then some (⟨b.take n, by simp [h]⟩, b.drop n, a) else none

/-- `n` elements. -/
def decN {α : Type} (dec : Dec α) : Nat → Dec (List α)
  | 0, b, a => some ([], b, a)
  | n + 1, b, a => do
    let (x, b, a) ← dec b a
    let (xs, b, a) ← decN dec n b a
    pure (x :: xs, b, a)

/-- A slice of elements of `elemSize` bytes in memory: `make` of `NextPrefix(elemSize)` elements,
then each. -/
def decSlice {α : Type} (elemSize : Nat) (dec : Dec α) : Dec (List α) := fun b a => do
  let (n, b, a) ← nextPrefix elemSize b a
  decN dec n b a

/-- A `[]uint64`. -/
def decU64s : Dec (List UInt64) := decSlice 8 decU64

/-- A `DBShard`. -/
def decShard : Dec DBShard := fun b a => do
  let (hostKey, b, a) ← decBytes b a
  let (sectorRoot, b, a) ← decArr 32 b a
  let (offset, b, a) ← decU64 b a
  let (nonce, b, a) ← decArr 24 b a
  pure (⟨hostKey, sectorRoot, offset.toUInt32, nonce⟩, b, a)

/-- A `DBChunk`. -/
def decChunk : Dec DBChunk := fun b a => do
  let (id, b, a) ← decU64 b a
  let (shards, b, a) ← decU64s b a
  let (minShards, b, a) ← decU64 b a
  let (len, b, a) ← decU64 b a
  pure (⟨id, shards, minShards.toUInt8, len⟩, b, a)

/-- A blob's chunks and seed, with the key `key`. -/
def decBlob (key : Bytes) : Dec DBBlob := fun b a => do
  let (chunks, b, a) ← decU64s b a
  let (seed, b, a) ← decArr 32 b a
  pure (⟨key, chunks, seed⟩, b, a)

/-- `encoding.Unmarshal(b, &v)` into a zero `v`, whose decoder may allocate `len(b)*3` bytes: the
value and nil, or the zero value and the error. On an error the code keeps the fields decoded
before it; the store never reads bytes it did not write, so only the zero value is reached. -/
def unmarshal {α : Type} [Inhabited α] (dec : Dec α) (b : Bytes) : α × Option MetaErr :=
  match dec b (b.length * 3) with
  | some (x, _) => (x, none)
  | none => (default, some .decode)

/-! ## Round trips -/

theorem decU64_le64 (x : UInt64) (r : Bytes) (a : Nat) : decU64 (le64 x ++ r) a = some (x, r, a) := by
  simp [decU64, List.drop_left' (length_le64 x)]

theorem nextPrefix_le64 {e k a : Nat} (hk : k < 2 ^ 31) (ha : k * e ≤ a) (r : Bytes) :
    nextPrefix e (le64 (UInt64.ofNat k) ++ r) a = some (k, r, a - k * e) := by
  have hn : (UInt64.ofNat k).toNat = k := by rw [toNat_ofNat64, Nat.mod_eq_of_lt (by omega)]
  simp only [nextPrefix, decU64_le64, hn, bind, Option.bind]
  rw [if_pos ⟨by omega, ha⟩]

theorem decBytes_encBytes {b : Bytes} (h : b.length < 2 ^ 31) {a : Nat} (ha : b.length ≤ a) (r : Bytes) :
    decBytes (encBytes b ++ r) a = some (b, r, a - b.length) := by
  simp [decBytes, encBytes, nextPrefix_le64 h (show b.length * 1 ≤ a by omega)]

theorem decArr_toList {n : Nat} (v : ByteArr n) (r : Bytes) (a : Nat) :
    decArr n (v.toList ++ r) a = some (v, r, a) := by
  obtain ⟨l, rfl⟩ := v
  simp [decArr]

theorem decN_flatMap_le64 (l : List UInt64) (r : Bytes) (a : Nat) :
    decN decU64 l.length (l.flatMap le64 ++ r) a = some (l, r, a) := by
  induction l with
  | nil => rfl
  | cons x l ih => simp [decN, List.append_assoc, decU64_le64, ih]

theorem decU64s_encU64s {l : List UInt64} (h : l.length < 2 ^ 31) {a : Nat} (ha : l.length * 8 ≤ a)
    (r : Bytes) : decU64s (encU64s l ++ r) a = some (l, r, a - l.length * 8) := by
  simp [decU64s, decSlice, encU64s, List.append_assoc, nextPrefix_le64 h ha, decN_flatMap_le64]

theorem toUInt32_toUInt64 (x : UInt32) : x.toUInt64.toUInt32 = x :=
  UInt32.toNat.inj (by change x.toNat % 2 ^ 32 = x.toNat; exact Nat.mod_eq_of_lt x.toNat_lt_size)

theorem toUInt8_toUInt64 (x : UInt8) : x.toUInt64.toUInt8 = x :=
  UInt8.toNat.inj (by change x.toNat % 2 ^ 8 = x.toNat; exact Nat.mod_eq_of_lt x.toNat_lt_size)
/-! ## Lengths -/

@[simp] theorem length_encU64s (l : List UInt64) : (encU64s l).length = 8 + 8 * l.length := by
  induction l with
  | nil => rfl
  | cons x l ih => simp_all [encU64s]; omega

@[simp] theorem length_encShard (s : DBShard) : (encShard s).length = s.hostKey.length + 72 := by
  simp [encShard, encBytes, s.sectorRoot.length_toList, s.nonce.length_toList]; omega

@[simp] theorem length_encChunk (c : DBChunk) : (encChunk c).length = 8 * c.shards.length + 32 := by
  simp [encChunk]; omega

@[simp] theorem length_encBlob (b : DBBlob) : (encBlob b).length = 8 * b.chunks.length + 40 := by
  simp [encBlob, b.seed.length_toList]; omega

/-! ## Stored records -/

theorem decShard_encShard {s : DBShard} (h : s.hostKey.length < 2 ^ 31) {a : Nat} (ha : s.hostKey.length ≤ a)
    (r : Bytes) : decShard (encShard s ++ r) a = some (s, r, a - s.hostKey.length) := by
  simp only [decShard, encShard, List.append_assoc, decBytes_encBytes h ha, decArr_toList, decU64_le64,
    toUInt32_toUInt64, bind, Option.bind, pure]

theorem decChunk_encChunk {c : DBChunk} (h : c.shards.length < 2 ^ 31) {a : Nat} (ha : c.shards.length * 8 ≤ a)
    (r : Bytes) : decChunk (encChunk c ++ r) a = some (c, r, a - c.shards.length * 8) := by
  simp only [decChunk, encChunk, List.append_assoc, decU64_le64, decU64s_encU64s h ha, toUInt8_toUInt64,
    bind, Option.bind, pure]

theorem decBlob_encBlob (key : Bytes) {b : DBBlob} (h : b.chunks.length < 2 ^ 31) {a : Nat}
    (ha : b.chunks.length * 8 ≤ a) (r : Bytes) :
    decBlob key (encBlob b ++ r) a = some (⟨key, b.chunks, b.seed⟩, r, a - b.chunks.length * 8) := by
  simp only [decBlob, encBlob, List.append_assoc, decU64s_encU64s h ha, decArr_toList, bind, Option.bind, pure]

theorem unmarshal_of_dec {α : Type} [Inhabited α] {dec : Dec α} {b r : Bytes} {x : α} {a : Nat}
    (h : dec b (b.length * 3) = some (x, r, a)) : unmarshal dec b = (x, none) := by
  simp [unmarshal, h]

/-- What `encoding.Marshal` wrote, `encoding.Unmarshal` reads back: the allocations of a record
never exceed its encoding's length. -/
theorem unmarshal_encShard {s : DBShard} (h : s.hostKey.length < 2 ^ 31) :
    unmarshal decShard (encShard s) = (s, none) :=
  unmarshal_of_dec (by simpa using decShard_encShard h (a := (encShard s).length * 3) (by simp; omega) [])

theorem unmarshal_encChunk {c : DBChunk} (h : c.shards.length < 2 ^ 31) :
    unmarshal decChunk (encChunk c) = (c, none) :=
  unmarshal_of_dec (by simpa using decChunk_encChunk h (a := (encChunk c).length * 3) (by simp; omega) [])

theorem unmarshal_encBlob (key : Bytes) {b : DBBlob} (h : b.chunks.length < 2 ^ 31) :
    unmarshal (decBlob key) (encBlob b) = (⟨key, b.chunks, b.seed⟩, none) :=
  unmarshal_of_dec (by simpa using decBlob_encBlob key h (a := (encBlob b).length * 3) (by simp; omega) [])

end Us.Store
