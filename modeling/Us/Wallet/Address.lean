import Us.Store.Encoding

/-!
# `StandardAddress` and `CalculateUnlockHash`

An address is the `UnlockHash` of a set of `UnlockConditions`: the root of Sia's Merkle tree over
blake2b whose leaves are the encodings of the timelock, of each public key and of the number of
signatures required. `StandardAddress` computes it for one key, no timelock and one signature, on
one 65-byte buffer, with the hashes of the two constant leaves written into the code. blake2b is a
parameter of every definition.

* `Tree.push`, `Tree.root`: the tree of Sia's `merkletree` package, as the stack of the roots of
  its perfect subtrees; `root_three` is the shape of a tree of three leaves.
* `StandardAddress_eq`: for a public key of every length (past 40 bytes the `append` moves the
  buffer to a new array) `StandardAddress` returns, without panicking, the node hash of the
  constant timelock leaf with the key's leaf, and of that with the constant leaf of one signature;
  the key's leaf is the hash of `0x00` and the key's encoding, the bytes at offsets 1, 17 and 25.
* `CalculateUnlockHash_ok`: `CalculateUnlockHash` never panics, whatever blake2b is.
* `CalculateUnlockHash_eq_UnlockHash`: when the two constants are blake2b's leaf hashes of `0`
  and `1`, `CalculateUnlockHash` is `UnlockHash` on every set of unlock conditions.
-/

set_option autoImplicit false

namespace Us.Wallet

/-- A `crypto.Hash`, what `blake2b.Sum256` returns; an `UnlockHash` is one. -/
abbrev Hash := ByteArr 32

/-- `types.SiaPublicKey`: an algorithm `Specifier` and a key of any length. -/
structure SiaPublicKey where
  algorithm : ByteArr 16
  key : Bytes
deriving DecidableEq, Repr

/-- `types.UnlockConditions`. -/
structure UnlockConditions where
  timelock : UInt64
  publicKeys : List SiaPublicKey
  signaturesRequired : UInt64
deriving DecidableEq, Repr

/-- `encoding.Marshal(pk)`: the specifier, then the key as a `[]byte`. -/
def encPublicKey (pk : SiaPublicKey) : Bytes := pk.algorithm.toList ++ Store.encBytes pk.key

section blake2b

variable (blake2b : Bytes → Hash)

/-! ## Sia's Merkle tree -/

/-- The hash of a leaf, `blake2b(0x00 | data)`. -/
def leafSum (data : Bytes) : Hash := blake2b (0x00 :: data)

/-- The hash of a node, `blake2b(0x01 | left | right)`. -/
def nodeSum (a b : Hash) : Hash := blake2b (0x01 :: (a.toList ++ b.toList))

/-- A `merkletree.Tree`: the roots of the perfect subtrees pushed so far, the newest first, each
with its height. -/
abbrev Tree := List (Nat × Hash)

/-- A subtree of height `h` and root `b` put on top, then `joinAllSubTrees`: while the subtree
under it has the same height, the two are joined. -/
def Tree.insert (h : Nat) (b : Hash) : Tree → Tree
  | [] => [(h, b)]
  | (h', a) :: t =>
    if h = h' then Tree.insert (h + 1) (nodeSum blake2b a b) t else (h, b) :: (h', a) :: t

/-- `tree.Push(data)`. -/
def Tree.push (t : Tree) (data : Bytes) : Tree := Tree.insert blake2b 0 (leafSum blake2b data) t

/-- `tree.Root()` copied into a `crypto.Hash`: the subtrees joined from the newest on; the zero hash
for a tree with no leaf. -/
def Tree.root : Tree → Hash
  | [] => default
  | (_, b) :: t => t.foldl (fun cur p => nodeSum blake2b p.2 cur) b

/-- Three leaves: the first two are joined, then joined with the third. -/
theorem root_three (a b c : Bytes) :
    Tree.root blake2b ([a, b, c].foldl (Tree.push blake2b) []) =
      nodeSum blake2b (nodeSum blake2b (leafSum blake2b a) (leafSum blake2b b)) (leafSum blake2b c) :=
  rfl

/-- `uc.UnlockHash()`: the root of the tree whose leaves are `encoding.Marshal` of the timelock,
of each public key and of the number of signatures required. -/
def UnlockConditions.UnlockHash (uc : UnlockConditions) : Hash :=
  Tree.root blake2b ((le64 uc.timelock :: uc.publicKeys.map encPublicKey ++
    [le64 uc.signaturesRequired]).foldl (Tree.push blake2b) [])

/-! ## `StandardAddress` -/

/-- The code's `timelockHash`, `blake2b(0x00 | uint64(0))`. -/
def timelockHash : Bytes :=
  [0x51, 0x87, 0xb7, 0xa8, 0x02, 0x1b, 0xf4, 0xf2,
   0xc0, 0x04, 0xea, 0x3a, 0x54, 0xcf, 0xec, 0xe1,
   0x75, 0x4f, 0x11, 0xc7, 0x62, 0x4d, 0x23, 0x63,
   0xc7, 0xf4, 0xcf, 0x4f, 0xdd, 0xd1, 0x44, 0x1e]

/-- The code's `sigsrequiredHash`, `blake2b(0x00 | uint64(1))`. -/
def sigsrequiredHash : Bytes :=
  [0xb3, 0x60, 0x10, 0xeb, 0x28, 0x5c, 0x15, 0x4a,
   0x8c, 0xd6, 0x30, 0x84, 0xac, 0xbe, 0x7e, 0xac,
   0x0c, 0x4d, 0x62, 0x5a, 0xb4, 0xe1, 0xa7, 0x6e,
   0x62, 0x4a, 0x87, 0x98, 0xcb, 0x63, 0x49, 0x7b]

/-- The first part of `StandardAddress`: the buffer of the key's leaf, `0x00`, the specifier, the
key's length and the key, appended to the first 25 bytes of a 65-byte slice. -/
def pubkeyLeaf (pk : SiaPublicKey) : Except Panic ByteSlice := do
  let buf ← (ByteSlice.make 65).set 0 0x00
  let buf ← buf.copyAt 1 pk.algorithm.toList
  let buf ← buf.putUint64At 17 (UInt64.ofNat pk.key.length)
  return (← buf.reslice 25).appendBytes pk.key

/-- `StandardAddress(pk)`: the leaf of the key, then the two nodes, on the same buffer. -/
def StandardAddress (pk : SiaPublicKey) : Except Panic Hash := do
  let buf ← pubkeyLeaf pk
  let pubkeyHash := blake2b buf.bytes
  let buf ← buf.reslice 65
  let buf ← buf.set 0 0x01
  let buf ← buf.copyAt 1 timelockHash
  let buf ← buf.copyAt 33 pubkeyHash.toList
  let tlpkHash := blake2b buf.bytes
  let buf ← buf.copyAt 1 tlpkHash.toList
  let buf ← buf.copyAt 33 sigsrequiredHash
  return blake2b buf.bytes

/-- `CalculateUnlockHash(uc)`: `StandardAddress` on standard unlock conditions, else `UnlockHash`. -/
def CalculateUnlockHash (uc : UnlockConditions) : Except Panic Hash :=
  if h : uc.timelock = 0 ∧ uc.publicKeys.length = 1 ∧ uc.signaturesRequired = 1 then
    StandardAddress blake2b (uc.publicKeys.get ⟨0, by omega⟩)
  else .ok (uc.UnlockHash blake2b)

/-! ### The buffer -/

/-- The leaf buffer holds `0x00` and the key's encoding, whatever the key's length, and keeps at
least the 65 bytes of capacity the nodes need. -/
theorem pubkeyLeaf_eq (pk : SiaPublicKey) : ∃ buf, pubkeyLeaf pk = .ok buf ∧
    buf.bytes = 0x00 :: encPublicKey pk ∧ 65 ≤ buf.arr.length := by
  have halg := pk.algorithm.length_toList
  rw [pubkeyLeaf, ByteSlice.set_of_lt _ (by decide), ok_bind, ByteSlice.copyAt_of_le (by simp [halg]),
    ok_bind, ByteSlice.putUint64At_of_le _ (by simp), ok_bind,
    ByteSlice.reslice_of_le (by simp [ByteSlice.length_arr_write, halg]), ok_bind]
  refine ⟨_, rfl, ?_, ?_⟩
  · rw [ByteSlice.bytes_appendBytes, ByteSlice.bytes_reslice_of_le _ (by simp),
      ByteSlice.bytes_write (by simp), ByteSlice.bytes_write (by simp [halg]),
      ByteSlice.bytes_write (by simp)]
    simp [List.take_append_eq_append_take, List.drop_append_eq_append_drop, halg, encPublicKey,
      Store.encBytes]
  · exact le_trans (by simp [ByteSlice.length_arr_write, halg]) (ByteSlice.length_arr_le_appendBytes _ _)

/-- Two 32-byte hashes copied to offsets 1 and 33 of a 65-byte buffer. -/
theorem copyAt_node {s : ByteSlice} (hs : s.len = 65) {a b : Bytes} (ha : a.length = 32)
    (hb : b.length = 32) {β : Type} (k : ByteSlice → Except Panic β) :
    (do let s ← s.copyAt 1 a; let s ← s.copyAt 33 b; k s) = k ((s.write 1 a).write 33 b) := by
  rw [ByteSlice.copyAt_of_le (by omega), ok_bind, ByteSlice.copyAt_of_le (by simp; omega), ok_bind]

/-- They fill the buffer after its first byte. -/
theorem bytes_node {s : ByteSlice} (hs : s.len = 65) {a b : Bytes} (ha : a.length = 32)
    (hb : b.length = 32) : ((s.write 1 a).write 33 b).bytes = s.bytes.take 1 ++ a ++ b := by
  have h1 : (s.write 1 a).bytes.length = 65 := by simp [hs]
  rw [ByteSlice.bytes_write (by simp; omega), ByteSlice.bytes_write (by omega)]
  simp [List.take_append_eq_append_take, ha, hb, hs, List.take_take]

theorem StandardAddress_eq (pk : SiaPublicKey) :
    StandardAddress blake2b pk = .ok (blake2b (0x01 :: ((blake2b (0x01 :: (timelockHash ++
      (leafSum blake2b (encPublicKey pk)).toList))).toList ++ sigsrequiredHash))) := by
  obtain ⟨buf, hbuf, hb, hc⟩ := pubkeyLeaf_eq pk
  have h32 : timelockHash.length = 32 ∧ sigsrequiredHash.length = 32 := ⟨rfl, rfl⟩
  have hs0 : ((⟨buf.arr, 65, hc⟩ : ByteSlice).write 0 [1]).bytes.take 1 = [1] := by
    rw [ByteSlice.bytes_write (by simp)]; simp
  rw [StandardAddress, hbuf, ok_bind, ByteSlice.reslice_of_le hc, ok_bind,
    ByteSlice.set_of_lt _ (Nat.succ_pos _), ok_bind,
    copyAt_node rfl h32.1 (ByteArr.length_toList _), copyAt_node rfl (ByteArr.length_toList _) h32.2,
    bytes_node rfl (ByteArr.length_toList _) h32.2, bytes_node rfl h32.1 (ByteArr.length_toList _),
    hs0, hb]
  simp [leafSum]

/-! ## `CalculateUnlockHash` -/

/-- `CalculateUnlockHash` never panics, whatever blake2b returns. -/
theorem CalculateUnlockHash_ok (uc : UnlockConditions) : ∃ h, CalculateUnlockHash blake2b uc = .ok h := by
  unfold CalculateUnlockHash
  split
  · exact ⟨_, StandardAddress_eq blake2b _⟩
  · exact ⟨_, rfl⟩

/-- **`CalculateUnlockHash` is `UnlockHash`.** When the code's two constants are the leaf hashes of
a timelock of 0 and of one signature required, the fast path agrees with the Merkle root on every
set of unlock conditions: every timelock, every number of signatures, every list of keys, keys of
every specifier and length. -/
theorem CalculateUnlockHash_eq_UnlockHash (htl : (blake2b (0x00 :: le64 0)).toList = timelockHash)
    (hsr : (blake2b (0x00 :: le64 1)).toList = sigsrequiredHash) (uc : UnlockConditions) :
    CalculateUnlockHash blake2b uc = .ok (uc.UnlockHash blake2b) := by
  obtain ⟨tl, pks, sr⟩ := uc
  unfold CalculateUnlockHash
  dsimp only
  split
  · next h =>
    obtain ⟨rfl, hl, rfl⟩ := h
    obtain ⟨pk, rfl⟩ := List.length_eq_one.1 hl
    rw [StandardAddress_eq, UnlockConditions.UnlockHash, List.map_singleton, List.cons_append,
      List.singleton_append, root_three]
    simp only [nodeSum, leafSum, htl, hsr]
    rfl
  · rfl

end blake2b

/-- A stand-in for blake2b: the code's two constants on the two constant leaves, and the first 32
bytes, zero-padded, of anything else. -/
def blake2bStandIn (b : Bytes) : Hash :=
  if b = 0x00 :: le64 0 then ⟨timelockHash, rfl⟩
  else if b = 0x00 :: le64 1 then ⟨sigsrequiredHash, rfl⟩
  else ⟨(b ++ List.replicate 32 0).take 32, by simp⟩

/-- A 41-byte key, on which `append` moves the buffer to a new array. -/
theorem CalculateUnlockHash_longKey :
    (blake2bStandIn (0x00 :: le64 0)).toList = timelockHash ∧
      (blake2bStandIn (0x00 :: le64 1)).toList = sigsrequiredHash ∧
      CalculateUnlockHash blake2bStandIn ⟨0, [⟨default, List.replicate 41 7⟩], 1⟩ =
        .ok (UnlockConditions.UnlockHash blake2bStandIn ⟨0, [⟨default, List.replicate 41 7⟩], 1⟩) :=
  ⟨by decide, by decide, CalculateUnlockHash_eq_UnlockHash _ (by decide) (by decide) _⟩

end Us.Wallet
