import Us.Go

/-!
# Blobs, chunks and shards, and the `MetaDB` interface

The records of `renterutil` (`DBBlob`, `DBChunk`, `DBShard`), the errors a store returns
(`MetaErr`), and the calls of the `MetaDB` interface as data (`Call`), with what a call returns
(`Ret`, beside an `Option MetaErr`). Both stores (`Ephemeral.lean`, `Bolt.lean`) interpret the same
`Call`s, so that runs of the two can be compared call by call (`Refine.lean`).

A `ForEachBlob` callback that does not call the store is a function from keys to the error it
returns (`none` for nil); `visit` is the loop both stores run over their ordered keys.
-/

set_option autoImplicit false

namespace Us.Store

/-- `hostdb.HostPublicKey`, a string such as `ed25519:...`. -/
abbrev HostPublicKey := Bytes

/-- `crypto.Hash`, a Merkle root. -/
abbrev Hash := ByteArr 32

/-- `renter.KeySeed`. -/
abbrev KeySeed := ByteArr 32

/-- A `DBBlob` is the concatenation of one or more chunks. -/
structure DBBlob where
  key : Bytes
  chunks : List UInt64
  seed : KeySeed
deriving DecidableEq, Repr, Inhabited

/-- A `DBChunk` is a set of erasure-encoded shards; `len` is its length before encoding. -/
structure DBChunk where
  id : UInt64
  shards : List UInt64
  minShards : UInt8
  len : UInt64
deriving DecidableEq, Repr, Inhabited

/-- A `DBShard` is a piece of data stored on a Sia host. -/
structure DBShard where
  hostKey : HostPublicKey
  sectorRoot : Hash
  offset : UInt32
  nonce : ByteArr 24
deriving DecidableEq, Repr, Inhabited

/-- The errors of bolt's bucket operations and transactions: `ErrKeyRequired`, `ErrKeyTooLarge`
and `ErrValueTooLarge`, of a `Put` with an empty key, a key longer than `MaxKeySize` or a value
longer than `MaxValueSize`, and a failure of the file underneath (a write, a sync, a commit). -/
inductive BoltErr where
  | keyRequired
  | keyTooLarge
  | valueTooLarge
  | io (n : Nat)
deriving DecidableEq, Repr

/-- The errors a `MetaDB` call returns: `ErrKeyNotFound`, an error of the bolt database, the Sia
decoder's rejection of a stored record, and the error a `ForEachBlob` callback returned. -/
inductive MetaErr where
  | keyNotFound
  | bolt (e : BoltErr)
  | decode
  | callback (e : Nat)
deriving DecidableEq, Repr

/-- A call of a store: the `MetaDB` interface, and `AddChunkAndShards`, which both stores have. -/
inductive Call where
  | addBlob (b : DBBlob)
  | blob (key : Bytes)
  | deleteBlob (key : Bytes)
  | forEachBlob (fn : Bytes → Option Nat)
  | addChunk (m n : Int) (length : UInt64)
  | chunk (id : UInt64)
  | setChunkShard (id : UInt64) (i : Int) (s : UInt64)
  | addShard (s : DBShard)
  | shard (id : UInt64)
  | addChunkAndShards (m : Int) (length : UInt64) (ss : List DBShard)
  | unreferencedSectors
  | addMetadata (key val : Bytes)
  | metadata (key : Bytes)

/-- What a call returns beside its error; for `ForEachBlob`, the keys it passed to its callback, in
order. -/
inductive Ret where
  | unit
  | id (v : UInt64)
  | chunk (c : DBChunk)
  | shard (s : DBShard)
  | blob (b : DBBlob)
  | visited (keys : List Bytes)
  | sectors (m : GoMap HostPublicKey (List Hash))
  | bytes (v : Bytes)

/-- `uint8(m)` for a Go `int`. -/
def uint8 (m : Int) : UInt8 := UInt8.ofNat (m % 256).toNat

/-- `make([]uint64, n)`. -/
def makeSlice (n : Int) : Except Panic (List UInt64) :=
  if n < 0 then .error .makeSliceLen else .ok (List.replicate n.toNat 0)

/-- `s[i]` with a `uint64` index. -/
def index {α : Type} (s : List α) (i : UInt64) : Except Panic α :=
  match s[i.toNat]? with
  | some a => .ok a
  | none => .error .indexOutOfRange

/-- `s[i]` with an `int` index. -/
def indexInt {α : Type} (s : List α) (i : Int) : Except Panic α :=
  if i < 0 then .error .indexOutOfRange
  else match s[i.toNat]? with
    | some a => .ok a
    | none => .error .indexOutOfRange

/-- The loop of `ForEachBlob`: call `fn` on each key in turn, stopping at its first error. -/
def visit (fn : Bytes → Option Nat) : List Bytes → List Bytes × Option MetaErr
  | [] => ([], none)
  | k :: ks =>
    match fn k with
    | some e => ([k], some (.callback e))
    | none => let r := visit fn ks; (k :: r.1, r.2)

/-- `visit` calls `fn` on every key when it never fails; otherwise it stops right after the first
key it fails on, and returns that error. -/
theorem visit_spec (fn : Bytes → Option Nat) : ∀ l : List Bytes,
    (visit fn l = (l, none) ∧ ∀ k ∈ l, fn k = none) ∨
    ∃ pre k post n, l = pre ++ k :: post ∧ (∀ k' ∈ pre, fn k' = none) ∧ fn k = some n ∧
      visit fn l = (pre ++ [k], some (.callback n))
  | [] => .inl ⟨rfl, by simp⟩
  | k :: ks => by
    rcases h : fn k with _ | n
    · rcases visit_spec fn ks with ⟨hv, hks⟩ | ⟨pre, k', post, n, rfl, hpre, hk, hv⟩
      · exact .inl ⟨by simp [visit, h, hv], List.forall_mem_cons.2 ⟨h, hks⟩⟩
      · exact .inr ⟨k :: pre, k', post, n, rfl, List.forall_mem_cons.2 ⟨h, hpre⟩, hk, by simp [visit, h, hv]⟩
    · exact .inr ⟨[], k, ks, n, rfl, by simp, h, by simp [visit, h]⟩

theorem index_ok {α : Type} {s : List α} {i : UInt64} {a : α} :
    index s i = .ok a ↔ s[i.toNat]? = some a := by
  cases h : s[i.toNat]? <;> simp [index, h]

theorem indexInt_ok {α : Type} {s : List α} {i : Int} {a : α} :
    indexInt s i = .ok a ↔ 0 ≤ i ∧ s[i.toNat]? = some a := by
  by_cases hi : i < 0
  · simp only [indexInt, hi, if_true, reduceCtorEq, false_iff, not_and]; omega
  · cases h : s[i.toNat]? <;> simp [indexInt, hi, h]
    omega

end Us.Store
