import Us.Wallet.Limbo

/-!
# The Sia encoding of the wallet's records

`UnspentOutput`, `ValuedInput`, `BlockReward`, `FileContract` and `LimboTransaction` implement
`MarshalSia` and `UnmarshalSia` by encoding their fields in order with Sia's encoder and decoder,
which are not in the source and are modelled as in `Us.Store.Encoding`; a `Currency` is
`big.Int.Bytes` of its value (the big-endian bytes without leading zeros) as a `[]byte`, and
`types.Transaction`'s encoding is a parameter. `UnmarshalSia` decodes with
`encoding.NewDecoder(r, encoding.DefaultAllocLimit)` (`decodeAll`), and the records of `types` it
holds decode on that same decoder, so that all of them draw on one allocation limit: the bytes of a
currency or a public key, and the elements of a slice at their size in memory (`SiacoinOutputSize`,
`SiaPublicKeySize`). What a failed `UnmarshalSia` leaves in its receiver is left out.

* `UnmarshalSia_MarshalSia`: `UnmarshalSia` of what `MarshalSia` wrote gives the record back when
  what decoding it allocates (`allocs`) fits `DefaultAllocLimit`, and fails otherwise, for every
  record whose slices, and the bytes of whose currencies, number fewer than `2^64`, as Sia's length
  prefixes need. It rests on `Reads`, stated once for each decoder and composed by `Reads.bind`.
* `UnmarshalSia_truncated`: every decoder reads a prefix of its input (`DecReadsPrefix`, which
  composes by `DecReadsPrefix.bind`), so bytes after a record change nothing, and a record cut
  short is rejected, never misread (`ReadsPrefix.rejectsTruncated`).
-/

set_option autoImplicit false

namespace Us.Wallet

open Store (Dec encBytes decBytes decU64 decArr nextPrefix decN decSlice decU64_le64 decArr_toList
  nextPrefix_le64)

/-- `encoding.DefaultAllocLimit`: the bytes the decoder of a wallet record may allocate. -/
def DefaultAllocLimit : Nat := 1000000

/-- `encoding.NewDecoder(r, encoding.DefaultAllocLimit)`, decoding with `dec` from a reader of `b`:
the value and the bytes left. -/
def decodeAll {α : Type} (dec : Dec α) (b : Bytes) : Option (α × Bytes) :=
  (dec b DefaultAllocLimit).map fun (x, b, _) => (x, b)

/-! ## Currencies -/

/-- The big-endian bytes of `n` without leading zeros, in at most `fuel` steps. -/
def beBytesAux : Nat → Nat → Bytes
  | 0, _ => []
  | fuel + 1, n => if n = 0 then [] else beBytesAux fuel (n / 256) ++ [UInt8.ofNat (n % 256)]

/-- `big.Int.Bytes`: the big-endian bytes of `n` without leading zeros; none for 0. -/
def beBytes (n : Nat) : Bytes := beBytesAux n n

/-- `big.Int.SetBytes`: the number whose big-endian bytes are `b`. -/
def beNat (b : Bytes) : Nat := b.foldl (fun acc x => acc * 256 + x.toNat) 0

theorem beNat_append_singleton (b : Bytes) (x : UInt8) : beNat (b ++ [x]) = beNat b * 256 + x.toNat := by
  simp [beNat, List.foldl_append]

theorem beNat_beBytesAux : ∀ fuel n : Nat, n ≤ fuel → beNat (beBytesAux fuel n) = n
  | 0, n, h => by rw [Nat.le_zero.1 h]; rfl
  | fuel + 1, n, h => by
    unfold beBytesAux
    split_ifs with hn
    · exact hn ▸ rfl
    · rw [beNat_append_singleton, beNat_beBytesAux fuel (n / 256) (by omega),
        show (UInt8.ofNat (n % 256)).toNat = n % 256 % 2 ^ 8 from BitVec.toNat_ofNat _ _]
      omega

theorem beNat_beBytes (n : Nat) : beNat (beBytes n) = n := beNat_beBytesAux n n le_rfl

/-- `Currency.MarshalSia`. -/
def encCurrency (v : Nat) : Bytes := encBytes (beBytes v)

/-- `Currency.UnmarshalSia`: `SetBytes` of `ReadPrefixedBytes`. -/
def decCurrency : Dec Nat := fun b a => do
  let (bs, b, a) ← decBytes b a
  pure (beNat bs, b, a)

/-! ## The records of `types` -/

/-- A slice: its length, then each element. -/
def encSlice {α : Type} (enc : α → Bytes) (l : List α) : Bytes :=
  le64 (UInt64.ofNat l.length) ++ l.flatMap enc

/-- `unsafe.Sizeof(types.SiacoinOutput{})`: a `Currency`, a `big.Int` of a sign and a slice
header, then a 32-byte unlock hash. -/
def SiacoinOutputSize : Nat := 64

/-- `unsafe.Sizeof(types.SiaPublicKey{})`: a 16-byte specifier, then a slice header. -/
def SiaPublicKeySize : Nat := 40

/-- `types.SiacoinOutput`. -/
def encSiacoinOutput (o : SiacoinOutput) : Bytes := encCurrency o.value ++ o.unlockHash.toList

def decSiacoinOutput : Dec SiacoinOutput := fun b a => do
  let (value, b, a) ← decCurrency b a
  let (unlockHash, b, a) ← decArr 32 b a
  pure (⟨value, unlockHash⟩, b, a)

def decPublicKey : Dec SiaPublicKey := fun b a => do
  let (algorithm, b, a) ← decArr 16 b a
  let (key, b, a) ← decBytes b a
  pure (⟨algorithm, key⟩, b, a)

/-- `types.UnlockConditions`. -/
def encUnlockConditions (uc : UnlockConditions) : Bytes :=
  le64 uc.timelock ++ encSlice encPublicKey uc.publicKeys ++ le64 uc.signaturesRequired

def decUnlockConditions : Dec UnlockConditions := fun b a => do
  let (timelock, b, a) ← decU64 b a
  let (publicKeys, b, a) ← decSlice SiaPublicKeySize decPublicKey b a
  let (signaturesRequired, b, a) ← decU64 b a
  pure (⟨timelock, publicKeys, signaturesRequired⟩, b, a)

/-- `types.SiacoinInput`. -/
def encSiacoinInput (i : SiacoinInput) : Bytes := i.parentID.toList ++ encUnlockConditions i.unlockConditions

def decSiacoinInput : Dec SiacoinInput := fun b a => do
  let (parentID, b, a) ← decArr 32 b a
  let (unlockConditions, b, a) ← decUnlockConditions b a
  pure (⟨parentID, unlockConditions⟩, b, a)

/-! ## The wallet's records -/

/-- `ValuedInput`: a `SiacoinInput` along with its value. -/
structure ValuedInput extends SiacoinInput where
  value : Nat
deriving DecidableEq, Repr

/-- `BlockReward`: an output awarded to a block's miner, with the height it is locked until. -/
structure BlockReward extends UnspentOutput where
  timelock : UInt64
deriving DecidableEq, Repr

/-- `types.FileContract`: a file contract's terms. -/
structure Types.FileContract where
  fileSize : UInt64
  fileMerkleRoot : Hash
  windowStart : UInt64
  windowEnd : UInt64
  payout : Nat
  validProofOutputs : List SiacoinOutput
  missedProofOutputs : List SiacoinOutput
  unlockHash : Hash
  revisionNumber : UInt64
deriving DecidableEq, Repr

/-- `FileContract`: an initial or revised file contract, with its unlock conditions and its ID. -/
structure FileContract extends Types.FileContract where
  unlockConditions : UnlockConditions
  id : Hash
deriving DecidableEq, Repr

/-- `UnspentOutput.MarshalSia`: `EncodeAll(o.SiacoinOutput, o.ID)`. -/
def UnspentOutput.MarshalSia (o : UnspentOutput) : Bytes := encSiacoinOutput o.toSiacoinOutput ++ o.id.toList

/-- `UnspentOutput.UnmarshalSia` on a decoder: `DecodeAll(&o.SiacoinOutput, &o.ID)`. -/
def UnspentOutput.decode : Dec UnspentOutput := fun b a => do
  let (o, b, a) ← decSiacoinOutput b a
  let (id, b, a) ← decArr 32 b a
  pure (⟨o, id⟩, b, a)

/-- `UnspentOutput.UnmarshalSia`. -/
def UnspentOutput.UnmarshalSia (b : Bytes) : Option (UnspentOutput × Bytes) := decodeAll UnspentOutput.decode b

/-- `ValuedInput.MarshalSia`: `EncodeAll(i.SiacoinInput, i.Value)`. -/
def ValuedInput.MarshalSia (i : ValuedInput) : Bytes := encSiacoinInput i.toSiacoinInput ++ encCurrency i.value

/-- `ValuedInput.UnmarshalSia` on a decoder: `DecodeAll(&i.SiacoinInput, &i.Value)`. -/
def ValuedInput.decode : Dec ValuedInput := fun b a => do
  let (i, b, a) ← decSiacoinInput b a
  let (value, b, a) ← decCurrency b a
  pure (⟨i, value⟩, b, a)

/-- `ValuedInput.UnmarshalSia`. -/
def ValuedInput.UnmarshalSia (b : Bytes) : Option (ValuedInput × Bytes) := decodeAll ValuedInput.decode b

/-- `BlockReward.MarshalSia`: `EncodeAll(br.UnspentOutput, br.Timelock)`. -/
def BlockReward.MarshalSia (br : BlockReward) : Bytes := br.toUnspentOutput.MarshalSia ++ le64 br.timelock

/-- `BlockReward.UnmarshalSia` on a decoder: `DecodeAll(&br.UnspentOutput, &br.Timelock)`, the
output decoding on the same decoder. -/
def BlockReward.decode : Dec BlockReward := fun b a => do
  let (o, b, a) ← UnspentOutput.decode b a
  let (timelock, b, a) ← decU64 b a
  pure (⟨o, timelock⟩, b, a)

/-- `BlockReward.UnmarshalSia`. -/
def BlockReward.UnmarshalSia (b : Bytes) : Option (BlockReward × Bytes) := decodeAll BlockReward.decode b

/-- `types.FileContract`, field by field. -/
def encTypesFileContract (fc : Types.FileContract) : Bytes :=
  le64 fc.fileSize ++ fc.fileMerkleRoot.toList ++ le64 fc.windowStart ++ le64 fc.windowEnd ++
    encCurrency fc.payout ++ encSlice encSiacoinOutput fc.validProofOutputs ++
    encSlice encSiacoinOutput fc.missedProofOutputs ++ fc.unlockHash.toList ++ le64 fc.revisionNumber

def decTypesFileContract : Dec Types.FileContract := fun b a => do
  let (fileSize, b, a) ← decU64 b a
  let (fileMerkleRoot, b, a) ← decArr 32 b a
  let (windowStart, b, a) ← decU64 b a
  let (windowEnd, b, a) ← decU64 b a
  let (payout, b, a) ← decCurrency b a
  let (validProofOutputs, b, a) ← decSlice SiacoinOutputSize decSiacoinOutput b a
  let (missedProofOutputs, b, a) ← decSlice SiacoinOutputSize decSiacoinOutput b a
  let (unlockHash, b, a) ← decArr 32 b a
  let (revisionNumber, b, a) ← decU64 b a
  pure (⟨fileSize, fileMerkleRoot, windowStart, windowEnd, payout, validProofOutputs,
    missedProofOutputs, unlockHash, revisionNumber⟩, b, a)

/-- `FileContract.MarshalSia`: `EncodeAll(fc.FileContract, fc.UnlockConditions, fc.ID)`. -/
def FileContract.MarshalSia (fc : FileContract) : Bytes :=
  encTypesFileContract fc.toFileContract ++ encUnlockConditions fc.unlockConditions ++ fc.id.toList

/-- `FileContract.UnmarshalSia` on a decoder: `DecodeAll(&fc.FileContract, &fc.UnlockConditions,
&fc.ID)`. -/
def FileContract.decode : Dec FileContract := fun b a => do
  let (fc, b, a) ← decTypesFileContract b a
  let (unlockConditions, b, a) ← decUnlockConditions b a
  let (id, b, a) ← decArr 32 b a
  pure (⟨fc, unlockConditions, id⟩, b, a)

/-- `FileContract.UnmarshalSia`. -/
def FileContract.UnmarshalSia (b : Bytes) : Option (FileContract × Bytes) := decodeAll FileContract.decode b

/-! ## What decoding allocates -/

/-- A slice's elements at `elemSize` bytes each, and what each allocates. -/
def sliceAllocs {α : Type} (elemSize : Nat) (allocs : α → Nat) (l : List α) : Nat :=
  l.length * elemSize + (l.map allocs).sum

/-- The bytes of the value. -/
def SiacoinOutput.allocs (o : SiacoinOutput) : Nat := (beBytes o.value).length

/-- The public keys, and the bytes of each key. -/
def UnlockConditions.allocs (uc : UnlockConditions) : Nat :=
  sliceAllocs SiaPublicKeySize (fun pk => pk.key.length) uc.publicKeys

def ValuedInput.allocs (i : ValuedInput) : Nat := i.unlockConditions.allocs + (beBytes i.value).length

def Types.FileContract.allocs (fc : Types.FileContract) : Nat :=
  (beBytes fc.payout).length + sliceAllocs SiacoinOutputSize SiacoinOutput.allocs fc.validProofOutputs +
    sliceAllocs SiacoinOutputSize SiacoinOutput.allocs fc.missedProofOutputs

def FileContract.allocs (fc : FileContract) : Nat := fc.toFileContract.allocs + fc.unlockConditions.allocs

/-- The slices of `uc` fit Sia's length prefixes. -/
def UnlockConditions.Fits (uc : UnlockConditions) : Prop :=
  uc.publicKeys.length < 2 ^ 64 ∧ ∀ pk ∈ uc.publicKeys, pk.key.length < 2 ^ 64

/-- The currencies of `os` fit Sia's length prefixes. -/
def OutputsFit (os : List SiacoinOutput) : Prop :=
  os.length < 2 ^ 64 ∧ ∀ o ∈ os, (beBytes o.value).length < 2 ^ 64

/-! ## Reading back -/

/-- `dec` reads `x` from `bs`, allocating `n` bytes: from `bs` followed by any bytes, with any
allocation limit below `2^31`, it returns `x` and the bytes after `bs` when `n` fits the limit, and
fails otherwise. -/
def Reads {α : Type} (dec : Dec α) (bs : Bytes) (x : α) (n : Nat) : Prop :=
  ∀ r a, a < 2 ^ 31 → dec (bs ++ r) a = if n ≤ a then some (x, r, a - n) else none

section reads

variable {α β : Type}

theorem Reads.pure (x : α) : Reads (fun b a => pure (x, b, a)) [] x 0 := fun r a _ => by
  rw [if_pos (Nat.zero_le a), Nat.sub_zero]
  rfl

theorem Reads.bind {d : Dec α} {k : α × Bytes × Nat → Option (β × Bytes × Nat)} {bs bs' : Bytes}
    {x : α} {y : β} {n m : Nat} (hd : Reads d bs x n) (hk : Reads (fun b a => k (x, b, a)) bs' y m) :
    Reads (fun b a => d b a >>= k) (bs ++ bs') y (n + m) := by
  intro r a ha
  show d (bs ++ bs' ++ r) a >>= k = _
  rw [List.append_assoc, hd _ a ha]
  by_cases hn : n ≤ a
  · rw [if_pos hn]
    refine (hk r (a - n) (by omega) : k (x, bs' ++ r, a - n) = _).trans ?_
    by_cases hm : m ≤ a - n
    · rw [if_pos hm, if_pos (by omega), Nat.sub_sub]
    · rw [if_neg hm, if_neg (by omega)]
  · rw [if_neg hn, if_neg (by omega)]
    rfl

theorem Reads.congr {d : Dec α} {bs bs' : Bytes} {x x' : α} {n n' : Nat} (h : Reads d bs x n)
    (hb : bs = bs') (hx : x = x') (hn : n = n') : Reads d bs' x' n' := hb ▸ hx ▸ hn ▸ h

/-- What `dec` reads, `decodeAll` reads when it fits `DefaultAllocLimit`. -/
theorem Reads.decodeAll_append {dec : Dec α} {bs : Bytes} {x : α} {n : Nat} (h : Reads dec bs x n)
    (r : Bytes) : decodeAll dec (bs ++ r) = if n ≤ DefaultAllocLimit then some (x, r) else none := by
  unfold decodeAll
  rw [h r _ (by decide)]
  split_ifs <;> rfl

theorem Reads.decodeAll_rest {dec : Dec α} {bs : Bytes} {x : α} {n : Nat} (h : Reads dec bs x n)
    {y : α} {r : Bytes} (hy : decodeAll dec bs = some (y, r)) : r = [] := by
  rw [← List.append_nil bs, h.decodeAll_append] at hy
  split_ifs at hy
  cases hy
  rfl

end reads

theorem reads_decU64 (x : UInt64) : Reads decU64 (le64 x) x 0 := fun r a _ => by
  rw [decU64_le64, if_pos (Nat.zero_le a), Nat.sub_zero]

theorem reads_decArr {n : Nat} (v : ByteArr n) : Reads (decArr n) v.toList v 0 := fun r a _ => by
  rw [decArr_toList, if_pos (Nat.zero_le a), Nat.sub_zero]

/-- Below `2^31`, a limit that `k` elements fit also passes `NextPrefix`'s bound on `k`. -/
theorem reads_nextPrefix {e k : Nat} (he : 0 < e) (hk : k < 2 ^ 64) :
    Reads (nextPrefix e) (le64 (UInt64.ofNat k)) k (k * e) := by
  intro r a ha
  by_cases h : k * e ≤ a
  · have hke : k ≤ k * e := Nat.le_mul_of_pos_right k he
    rw [nextPrefix_le64 (by omega) h, if_pos h]
  · have hn : (UInt64.ofNat k).toNat = k := by rw [toNat_ofNat64, Nat.mod_eq_of_lt hk]
    simp only [nextPrefix, decU64_le64, hn, bind, Option.bind]
    rw [if_neg fun h' => h h'.2, if_neg h]

theorem reads_take (bs : Bytes) :
    Reads (fun b a => if bs.length ≤ b.length then some (b.take bs.length, b.drop bs.length, a) else none)
      bs bs 0 := fun r a _ => by simp

theorem reads_decBytes {bs : Bytes} (h : bs.length < 2 ^ 64) : Reads decBytes (encBytes bs) bs bs.length :=
  Reads.congr (Reads.bind (reads_nextPrefix Nat.one_pos h) (reads_take bs)) rfl rfl (by omega)

theorem reads_decCurrency {v : Nat} (h : (beBytes v).length < 2 ^ 64) :
    Reads decCurrency (encCurrency v) v (beBytes v).length :=
  Reads.congr (Reads.bind (reads_decBytes h) (Reads.pure _)) (List.append_nil _) (beNat_beBytes v)
    (Nat.add_zero _)

theorem reads_decN {α : Type} {enc : α → Bytes} {dec : Dec α} {allocs : α → Nat} :
    ∀ {l : List α}, (∀ x ∈ l, Reads dec (enc x) x (allocs x)) →
      Reads (decN dec l.length) (l.flatMap enc) l (l.map allocs).sum
  | [], _ => Reads.pure _
  | x :: l, h =>
    Reads.congr (Reads.bind (h x (.head _)) (Reads.bind (reads_decN fun y hy => h y (.tail _ hy))
      (Reads.pure _))) (by simp) rfl (by simp)

theorem reads_decSlice {α : Type} {e : Nat} (he : 0 < e) {enc : α → Bytes} {dec : Dec α}
    {allocs : α → Nat} {l : List α} (hl : l.length < 2 ^ 64) (h : ∀ x ∈ l, Reads dec (enc x) x (allocs x)) :
    Reads (decSlice e dec) (encSlice enc l) l (sliceAllocs e allocs l) :=
  Reads.bind (reads_nextPrefix he hl) (reads_decN h)

theorem reads_decSiacoinOutput {o : SiacoinOutput} (h : (beBytes o.value).length < 2 ^ 64) :
    Reads decSiacoinOutput (encSiacoinOutput o) o o.allocs :=
  Reads.congr (Reads.bind (reads_decCurrency h) (Reads.bind (reads_decArr o.unlockHash) (Reads.pure _)))
    (by simp [encSiacoinOutput]) rfl (by simp [SiacoinOutput.allocs])

theorem reads_decOutputs {os : List SiacoinOutput} (h : OutputsFit os) :
    Reads (decSlice SiacoinOutputSize decSiacoinOutput) (encSlice encSiacoinOutput os) os
      (sliceAllocs SiacoinOutputSize SiacoinOutput.allocs os) :=
  reads_decSlice (by decide) h.1 fun o ho => reads_decSiacoinOutput (h.2 o ho)

theorem reads_decPublicKey {pk : SiaPublicKey} (h : pk.key.length < 2 ^ 64) :
    Reads decPublicKey (encPublicKey pk) pk pk.key.length :=
  Reads.congr (Reads.bind (reads_decArr pk.algorithm) (Reads.bind (reads_decBytes h) (Reads.pure _)))
    (by simp [encPublicKey]) rfl (by simp)

theorem reads_decUnlockConditions {uc : UnlockConditions} (h : uc.Fits) :
    Reads decUnlockConditions (encUnlockConditions uc) uc uc.allocs :=
  Reads.congr (Reads.bind (reads_decU64 uc.timelock)
      (Reads.bind (reads_decSlice (by decide) h.1 fun pk hpk => reads_decPublicKey (h.2 pk hpk))
        (Reads.bind (reads_decU64 uc.signaturesRequired) (Reads.pure _))))
    (by simp [encUnlockConditions]) rfl (by simp [UnlockConditions.allocs])

theorem reads_decSiacoinInput {i : SiacoinInput} (h : i.unlockConditions.Fits) :
    Reads decSiacoinInput (encSiacoinInput i) i i.unlockConditions.allocs :=
  Reads.congr (Reads.bind (reads_decArr i.parentID) (Reads.bind (reads_decUnlockConditions h) (Reads.pure _)))
    (by simp [encSiacoinInput]) rfl (by simp)

theorem reads_decTypesFileContract {fc : Types.FileContract} (hp : (beBytes fc.payout).length < 2 ^ 64)
    (hv : OutputsFit fc.validProofOutputs) (hm : OutputsFit fc.missedProofOutputs) :
    Reads decTypesFileContract (encTypesFileContract fc) fc fc.allocs :=
  Reads.congr
    (Reads.bind (reads_decU64 fc.fileSize) <| Reads.bind (reads_decArr fc.fileMerkleRoot) <|
      Reads.bind (reads_decU64 fc.windowStart) <| Reads.bind (reads_decU64 fc.windowEnd) <|
      Reads.bind (reads_decCurrency hp) <| Reads.bind (reads_decOutputs hv) <|
      Reads.bind (reads_decOutputs hm) <| Reads.bind (reads_decArr fc.unlockHash) <|
      Reads.bind (reads_decU64 fc.revisionNumber) <| Reads.pure _)
    (by simp [encTypesFileContract]) rfl (by simp [Types.FileContract.allocs]; omega)

theorem UnspentOutput.reads {o : UnspentOutput} (h : (beBytes o.value).length < 2 ^ 64) :
    Reads UnspentOutput.decode o.MarshalSia o o.allocs :=
  Reads.congr (Reads.bind (reads_decSiacoinOutput h) (Reads.bind (reads_decArr o.id) (Reads.pure _)))
    (by simp [UnspentOutput.MarshalSia]) rfl (by simp)

theorem ValuedInput.reads {i : ValuedInput} (hu : i.unlockConditions.Fits) (h : (beBytes i.value).length < 2 ^ 64) :
    Reads ValuedInput.decode i.MarshalSia i i.allocs :=
  Reads.congr (Reads.bind (reads_decSiacoinInput hu) (Reads.bind (reads_decCurrency h) (Reads.pure _)))
    (by simp [ValuedInput.MarshalSia]) rfl (by simp [ValuedInput.allocs])

theorem BlockReward.reads {br : BlockReward} (h : (beBytes br.value).length < 2 ^ 64) :
    Reads BlockReward.decode br.MarshalSia br br.allocs :=
  Reads.congr (Reads.bind (UnspentOutput.reads h) (Reads.bind (reads_decU64 br.timelock) (Reads.pure _)))
    (by simp [BlockReward.MarshalSia]) rfl (by simp)

theorem FileContract.reads {fc : FileContract} (hp : (beBytes fc.payout).length < 2 ^ 64)
    (hv : OutputsFit fc.validProofOutputs) (hm : OutputsFit fc.missedProofOutputs)
    (hu : fc.unlockConditions.Fits) : Reads FileContract.decode fc.MarshalSia fc fc.allocs :=
  Reads.congr (Reads.bind (reads_decTypesFileContract hp hv hm) (Reads.bind (reads_decUnlockConditions hu)
      (Reads.bind (reads_decArr fc.id) (Reads.pure _))))
    (by simp [FileContract.MarshalSia]) rfl (by simp [FileContract.allocs])

/-- **The wallet's records read back what they wrote, within the allocation limit.** For every
`UnspentOutput`, `ValuedInput`, `BlockReward` and `FileContract` whose slices, and the bytes of
whose currencies, number fewer than `2^64`, `UnmarshalSia` of what `MarshalSia` wrote, followed by
any bytes `r`, is the record, with `r` left to read, when what decoding the record allocates fits
`DefaultAllocLimit`; otherwise it fails. -/
theorem UnmarshalSia_MarshalSia (r : Bytes) :
    (∀ o : UnspentOutput, (beBytes o.value).length < 2 ^ 64 →
      UnspentOutput.UnmarshalSia (o.MarshalSia ++ r) =
        if o.allocs ≤ DefaultAllocLimit then some (o, r) else none) ∧
    (∀ i : ValuedInput, i.unlockConditions.Fits → (beBytes i.value).length < 2 ^ 64 →
      ValuedInput.UnmarshalSia (i.MarshalSia ++ r) =
        if i.allocs ≤ DefaultAllocLimit then some (i, r) else none) ∧
    (∀ br : BlockReward, (beBytes br.value).length < 2 ^ 64 →
      BlockReward.UnmarshalSia (br.MarshalSia ++ r) =
        if br.allocs ≤ DefaultAllocLimit then some (br, r) else none) ∧
    (∀ fc : FileContract, (beBytes fc.payout).length < 2 ^ 64 → OutputsFit fc.validProofOutputs →
      OutputsFit fc.missedProofOutputs → fc.unlockConditions.Fits →
      FileContract.UnmarshalSia (fc.MarshalSia ++ r) =
        if fc.allocs ≤ DefaultAllocLimit then some (fc, r) else none) :=
  ⟨fun _ h => (UnspentOutput.reads h).decodeAll_append r,
    fun _ hu h => (ValuedInput.reads hu h).decodeAll_append r,
    fun _ h => (BlockReward.reads h).decodeAll_append r,
    fun _ hp hv hm hu => (FileContract.reads hp hv hm hu).decodeAll_append r⟩

/-- A contract of 4096 bytes paying 1000 hastings, with one output on a valid proof. -/
def contract₀ : FileContract :=
  { fileSize := 4096, fileMerkleRoot := default, windowStart := 10, windowEnd := 20, payout := 1000,
    validProofOutputs := [⟨1000, default⟩], missedProofOutputs := [], unlockHash := default,
    revisionNumber := 1, unlockConditions := ⟨0, [⟨default, [1, 2, 3]⟩], 1⟩, id := default }

/-- The bytes of a public key count toward what decoding an input allocates. -/
theorem ValuedInput.key_le_allocs {i : ValuedInput} {pk : SiaPublicKey} (h : pk ∈ i.unlockConditions.publicKeys) :
    pk.key.length ≤ i.allocs := by
  have := List.le_sum_of_mem (List.mem_map_of_mem (fun pk : SiaPublicKey => pk.key.length) h)
  dsimp only at this
  unfold ValuedInput.allocs UnlockConditions.allocs sliceAllocs
  omega

/-- An input whose one public key is a byte longer than `DefaultAllocLimit`. -/
def longKeyInput : ValuedInput :=
  { parentID := default, unlockConditions := ⟨0, [⟨default, List.replicate (DefaultAllocLimit + 1) 0⟩], 1⟩,
    value := 0 }

/-- `contract₀` reads back; an input with a key longer than the limit does not. -/
theorem UnmarshalSia_MarshalSia_contract₀ :
    FileContract.UnmarshalSia (contract₀.MarshalSia ++ [0xff]) = some (contract₀, [0xff]) ∧
      ValuedInput.UnmarshalSia (longKeyInput.MarshalSia ++ [0xff]) = none :=
  ⟨((UnmarshalSia_MarshalSia [0xff]).2.2.2 contract₀ (by decide) ⟨by decide, by decide⟩
      ⟨by decide, by decide⟩ ⟨by decide, by decide⟩).trans (if_pos (by decide)),
    ((UnmarshalSia_MarshalSia [0xff]).2.1 longKeyInput ⟨by decide, by simp [longKeyInput]; decide⟩
      (by decide)).trans (if_neg fun h => by
        have hk := ValuedInput.key_le_allocs (i := longKeyInput) (List.mem_singleton_self _)
        rw [List.length_replicate] at hk
        omega)⟩

/-! ## Decoders read a prefix -/

/-- `dec` reads a prefix of its input: bytes after the input are left to read and change nothing
else, as when the reader it decodes from holds more. -/
def DecReadsPrefix {α : Type} (dec : Dec α) : Prop :=
  ∀ (t : Bytes) {b : Bytes} {a : Nat} {x : α} {r : Bytes} {a' : Nat},
    dec b a = some (x, r, a') → dec (b ++ t) a = some (x, r ++ t, a')

/-- `dec` reads a prefix of its input. -/
def ReadsPrefix {α : Type} (dec : Bytes → Option (α × Bytes)) : Prop :=
  ∀ (t : Bytes) {b : Bytes} {a : α} {r : Bytes}, dec b = some (a, r) → dec (b ++ t) = some (a, r ++ t)

/-- `dec` fails on every strict prefix of `e`. -/
def RejectsTruncated {α : Type} (dec : Bytes → Option (α × Bytes)) (e : Bytes) : Prop :=
  ∀ p s : Bytes, p ++ s = e → s ≠ [] → dec p = none

section readsPrefix

variable {α β : Type}

theorem DecReadsPrefix.pure (x : α) : DecReadsPrefix fun b a => (pure (x, b, a) : Option (α × Bytes × Nat)) := by
  intro t b a y r a' h
  cases h
  rfl

theorem DecReadsPrefix.bind {d : Dec α} {k : α × Bytes × Nat → Option (β × Bytes × Nat)}
    (hd : DecReadsPrefix d) (hk : ∀ x, DecReadsPrefix fun b a => k (x, b, a)) :
    DecReadsPrefix fun b a => d b a >>= k := by
  intro t b a y s a'' h
  obtain ⟨⟨x, r, a'⟩, h₁, h₂⟩ := Option.bind_eq_some.1 h
  exact Option.bind_eq_some.2 ⟨(x, r ++ t, a'), hd t h₁, hk x t h₂⟩

theorem DecReadsPrefix.readsPrefix {dec : Dec α} (hd : DecReadsPrefix dec) : ReadsPrefix (decodeAll dec) := by
  intro t b x r h
  obtain ⟨⟨y, s, a'⟩, h₁, h₂⟩ := Option.map_eq_some'.1 h
  cases h₂
  exact Option.map_eq_some'.2 ⟨_, hd t h₁, rfl⟩

/-- A decoder that reads a prefix, and reads all of `e` when it reads `e`, fails on what falls
short of `e`. -/
theorem ReadsPrefix.rejectsTruncated {dec : Bytes → Option (α × Bytes)} (hd : ReadsPrefix dec)
    {e : Bytes} (he : ∀ {y r}, dec e = some (y, r) → r = []) : RejectsTruncated dec e := by
  intro p s hp hs
  rcases h : dec p with _ | ⟨y, r⟩
  · rfl
  · have h' := hd s h
    rw [hp] at h'
    exact absurd (List.append_eq_nil.1 (he h')).2 hs

end readsPrefix

theorem decU64_readsPrefix : DecReadsPrefix decU64 := by
  intro t b a x r a' h
  unfold Store.decU64 at h ⊢
  split_ifs at h with hb
  cases h
  rw [if_pos (by simp only [List.length_append]; omega), decLE64, decLE64,
    List.take_append_of_le_length hb, List.drop_append_of_le_length hb]

theorem decArr_readsPrefix (n : Nat) : DecReadsPrefix (decArr n) := by
  intro t b a x r a' h
  unfold Store.decArr at h ⊢
  split_ifs at h with hb
  cases h
  rw [dif_pos (by simp only [List.length_append]; omega)]
  simp only [List.take_append_of_le_length hb, List.drop_append_of_le_length hb]

theorem nextPrefix_readsPrefix (e : Nat) : DecReadsPrefix (nextPrefix e) :=
  .bind decU64_readsPrefix fun n t b a x r a' h => by
    dsimp only at h ⊢
    split_ifs at h with hn
    cases h
    rw [if_pos hn]

theorem decBytes_readsPrefix : DecReadsPrefix decBytes :=
  .bind (nextPrefix_readsPrefix 1) fun n t b a x r a' h => by
    dsimp only at h ⊢
    split_ifs at h with hb
    cases h
    rw [if_pos (by simp only [List.length_append]; omega), List.take_append_of_le_length hb,
      List.drop_append_of_le_length hb]

theorem decCurrency_readsPrefix : DecReadsPrefix decCurrency :=
  .bind decBytes_readsPrefix fun _ => .pure _

theorem decN_readsPrefix {α : Type} {dec : Dec α} (hd : DecReadsPrefix dec) : ∀ n, DecReadsPrefix (decN dec n)
  | 0 => .pure _
  | n + 1 => .bind hd fun _ => .bind (decN_readsPrefix hd n) fun _ => .pure _

theorem decSlice_readsPrefix {α : Type} (e : Nat) {dec : Dec α} (hd : DecReadsPrefix dec) :
    DecReadsPrefix (decSlice e dec) :=
  .bind (nextPrefix_readsPrefix e) fun n => decN_readsPrefix hd n

theorem decSiacoinOutput_readsPrefix : DecReadsPrefix decSiacoinOutput :=
  .bind decCurrency_readsPrefix fun _ => .bind (decArr_readsPrefix 32) fun _ => .pure _

theorem decUnlockConditions_readsPrefix : DecReadsPrefix decUnlockConditions :=
  .bind decU64_readsPrefix fun _ =>
    .bind (decSlice_readsPrefix _ (.bind (decArr_readsPrefix 16) fun _ => .bind decBytes_readsPrefix fun _ =>
      .pure _)) fun _ =>
    .bind decU64_readsPrefix fun _ => .pure _

theorem UnspentOutput.decode_readsPrefix : DecReadsPrefix UnspentOutput.decode :=
  .bind decSiacoinOutput_readsPrefix fun _ => .bind (decArr_readsPrefix 32) fun _ => .pure _

theorem ValuedInput.decode_readsPrefix : DecReadsPrefix ValuedInput.decode :=
  .bind (.bind (decArr_readsPrefix 32) fun _ => .bind decUnlockConditions_readsPrefix fun _ => .pure _)
    fun _ => .bind decCurrency_readsPrefix fun _ => .pure _

theorem BlockReward.decode_readsPrefix : DecReadsPrefix BlockReward.decode :=
  .bind UnspentOutput.decode_readsPrefix fun _ => .bind decU64_readsPrefix fun _ => .pure _

theorem FileContract.decode_readsPrefix : DecReadsPrefix FileContract.decode :=
  .bind (.bind decU64_readsPrefix fun _ => .bind (decArr_readsPrefix 32) fun _ =>
      .bind decU64_readsPrefix fun _ => .bind decU64_readsPrefix fun _ =>
      .bind decCurrency_readsPrefix fun _ => .bind (decSlice_readsPrefix _ decSiacoinOutput_readsPrefix) fun _ =>
      .bind (decSlice_readsPrefix _ decSiacoinOutput_readsPrefix) fun _ =>
      .bind (decArr_readsPrefix 32) fun _ => .bind decU64_readsPrefix fun _ => .pure _) fun _ =>
    .bind decUnlockConditions_readsPrefix fun _ => .bind (decArr_readsPrefix 32) fun _ => .pure _

/-- **A record cut short is rejected.** `UnmarshalSia` of the wallet's records reads a prefix of
its input: bytes after the record, as a reader that holds more gives, are left to read and change
nothing. On every strict prefix of what `MarshalSia` wrote, for a record whose slices, and the
bytes of whose currencies, number fewer than `2^64`, it fails rather than return a record. -/
theorem UnmarshalSia_truncated :
    ReadsPrefix UnspentOutput.UnmarshalSia ∧ ReadsPrefix ValuedInput.UnmarshalSia ∧
      ReadsPrefix BlockReward.UnmarshalSia ∧ ReadsPrefix FileContract.UnmarshalSia ∧
    (∀ o : UnspentOutput, (beBytes o.value).length < 2 ^ 64 →
      RejectsTruncated UnspentOutput.UnmarshalSia o.MarshalSia) ∧
    (∀ i : ValuedInput, i.unlockConditions.Fits → (beBytes i.value).length < 2 ^ 64 →
      RejectsTruncated ValuedInput.UnmarshalSia i.MarshalSia) ∧
    (∀ br : BlockReward, (beBytes br.value).length < 2 ^ 64 →
      RejectsTruncated BlockReward.UnmarshalSia br.MarshalSia) ∧
    (∀ fc : FileContract, (beBytes fc.payout).length < 2 ^ 64 → OutputsFit fc.validProofOutputs →
      OutputsFit fc.missedProofOutputs → fc.unlockConditions.Fits →
      RejectsTruncated FileContract.UnmarshalSia fc.MarshalSia) :=
  ⟨UnspentOutput.decode_readsPrefix.readsPrefix, ValuedInput.decode_readsPrefix.readsPrefix,
    BlockReward.decode_readsPrefix.readsPrefix, FileContract.decode_readsPrefix.readsPrefix,
    fun _ h => UnspentOutput.decode_readsPrefix.readsPrefix.rejectsTruncated (UnspentOutput.reads h).decodeAll_rest,
    fun _ hu h => ValuedInput.decode_readsPrefix.readsPrefix.rejectsTruncated
      (ValuedInput.reads hu h).decodeAll_rest,
    fun _ h => BlockReward.decode_readsPrefix.readsPrefix.rejectsTruncated (BlockReward.reads h).decodeAll_rest,
    fun _ hp hv hm hu => FileContract.decode_readsPrefix.readsPrefix.rejectsTruncated
      (FileContract.reads hp hv hm hu).decodeAll_rest⟩

/-! ## `LimboTransaction` -/

/-- A `time.Time`, by the instant it names: what `Unix()` returns, an `int64` (here its bits), and
the nanoseconds within the second. Its location and monotonic reading are left out. -/
structure Time where
  unix : UInt64
  nsec : Fin 1000000000
deriving DecidableEq, Repr

/-- `time.Unix(sec, 0)`. -/
def Time.ofUnix (sec : UInt64) : Time := ⟨sec, 0⟩

section limbo

variable (encTxn : Transaction → Bytes) (decTxn : Dec Transaction)

/-- `LimboTransaction.MarshalSia`, of a transaction in limbo since `limboSince`:
`EncodeAll(txn.Transaction, txn.LimboSince.Unix())`. -/
def LimboTransaction.MarshalSia (txn : LimboTransaction) (limboSince : Time) : Bytes :=
  encTxn txn.toTransaction ++ le64 limboSince.unix

/-- `LimboTransaction.UnmarshalSia`: `DecodeAll(&txn.Transaction, &since)`, then
`txn.LimboSince = time.Unix(since, 0)`, which drops the nanoseconds `MarshalSia` did not write. -/
def LimboTransaction.UnmarshalSia (b : Bytes) : Option ((LimboTransaction × Time) × Bytes) :=
  decodeAll (fun b a => do
    let (t, b, a) ← decTxn b a
    let (since, b, a) ← decU64 b a
    pure ((⟨t⟩, Time.ofUnix since), b, a)) b

end limbo

end Us.Wallet
