import Us.Store.Refs
import Us.Store.Bolt

/-!
# `BoltMetaDB` against `EphemeralMetaDB`

The two stores, run on the same calls, the bolt one on a file that never fails:

* `stores_disagree`: they do not always answer alike. An empty metadata value is found in memory
  and not found in bolt (`Metadata` reads `nil` back), and `Blob` of a missing key returns a blob
  carrying the key from bolt and the zero blob from memory. Bolt also refuses empty keys, keys
  longer than `MaxKeySize` and values longer than `MaxValueSize`.
* `Legal`: the calls that keep inside what both can do: such keys and values, the chunk and shard
  ids the store returned, fewer than `maxInt` records, and no `UnreferencedSectors` (bolt's is a
  placeholder).
* `Sim`: each bolt bucket holds the Sia encoding of the in-memory records: chunk and shard `i`
  under the key `le64 i`, with the bucket's counter at the number of records (`Slots`), blobs and
  metadata under their keys. `sim_step`: every legal call keeps it, and the two stores answer alike
  up to `Call.keyed` (bolt's `Blob` sets the key asked for, also on `ErrKeyNotFound`), or panic
  alike (`make` with a negative length in `AddChunk`, a slot index out of range in
  `SetChunkShard`).
* `bolt_refines_ephemeral`: so from the two new stores, every legal sequence of calls gets the same
  answers from both up to `Call.keyed`, or panics at the same call in both; `ForEachBlob` passes
  the same keys in the same order.
-/

set_option autoImplicit false

namespace Us.Store

/-! ## Buckets of numbered records -/

/-- Bucket `b` holds the records `l` under their ids `1, 2, ...`, with its counter at the last. -/
structure Slots {α : Type} (enc : α → Bytes) (l : List α) (b : Bucket) : Prop where
  get : ∀ id : UInt64, b.kv.lookup (le64 id) = if id.toNat = 0 then none else l[id.toNat - 1]?.map enc
  seq : b.seq.toNat = l.length

namespace Slots

variable {α : Type} {enc : α → Bytes} {l : List α} {b : Bucket}

theorem getElem?_append_singleton_of_ne {a : α} {j : Nat} (h : j ≠ l.length) :
    (l ++ [a])[j]? = l[j]? := by
  rcases Nat.lt_or_ge j l.length with hj | hj
  · exact List.getElem?_append_left hj
  · rw [List.getElem?_eq_none (by simp; omega), List.getElem?_eq_none hj]

theorem empty : Slots enc [] Bucket.empty := ⟨fun id => by simp [Bucket.empty], rfl⟩

theorem le64_eq_iff {x y : UInt64} : le64 x = le64 y ↔ x.toNat = y.toNat :=
  ⟨fun h => congrArg _ (le64_injective h), fun h => congrArg _ (UInt64.toNat.inj h)⟩

theorem toNat_seq_add_one (h : Slots enc l b) (hl : l.length + 1 < 2 ^ 64) :
    (b.seq + 1).toNat = l.length + 1 := by
  rw [toNat_add64, h.seq]; exact Nat.mod_eq_of_lt hl

/-- `NextSequence` and `Put` of the next record. -/
theorem push (h : Slots enc l b) (hl : l.length + 1 < 2 ^ 64) (a : α) :
    Slots enc (l ++ [a]) (b.push (enc a)) := by
  have hs := h.toNat_seq_add_one hl
  refine ⟨fun id => ?_, by simpa [Bucket.push] using hs⟩
  simp only [Bucket.push]
  by_cases hid : id.toNat = l.length + 1
  · rw [le64_eq_iff.2 (hid.trans hs.symm), AList.lookup_insert, hid, if_neg (Nat.succ_ne_zero _),
      Nat.add_sub_cancel, List.getElem?_concat_length]
    rfl
  · rw [AList.lookup_insert_ne (fun he => hid ((le64_eq_iff.1 he).trans hs)), h.get]
    split_ifs with h0
    · rfl
    · rw [getElem?_append_singleton_of_ne (by omega)]
/-- `Put` over the record `id`. -/
theorem set (h : Slots enc l b) {id : UInt64} (h1 : 1 ≤ id.toNat) (hid : id.toNat ≤ l.length) (a : α) :
    Slots enc (l.set (id.toNat - 1) a) { b with kv := b.kv.insert (le64 id) (enc a) } := by
  refine ⟨fun id' => ?_, by simpa using h.seq⟩
  by_cases he : id'.toNat = id.toNat
  · rw [le64_eq_iff.2 he, AList.lookup_insert, he, if_neg (by omega),
      List.getElem?_set_self (by omega)]
    rfl
  · rw [AList.lookup_insert_ne (fun h' => he (le64_eq_iff.1 h')), h.get]
    split_ifs
    · rfl
    · rw [List.getElem?_set_ne (by omega)]

/-- The counter, as the id the store in memory computes. -/
theorem seq_eq (h : Slots enc l b) : b.seq = UInt64.ofNat l.length := by
  rw [← h.seq, ofNat_toNat64]

/-- The record under an id the store returned. -/
theorem lookup (h : Slots enc l b) {id : UInt64} (h1 : 1 ≤ id.toNat) {x : α}
    (hx : l[(id - 1).toNat]? = some x) : b.kv.lookup (le64 id) = some (enc x) := by
  rw [h.get, if_neg (by omega), ← toNat_sub_one64 h1, hx]
  rfl

end Slots

/-! ## Legal calls -/

/-- What bolt returns where memory returns `r`: the same, except that `Blob` sets the key asked
for on every return. -/
def Call.keyed : Call → Ret × Option MetaErr → Ret × Option MetaErr
  | .blob key, (.blob b, err) => (.blob { b with key }, err)
  | _, r => r

namespace EphemeralMetaDB

instance (db : EphemeralMetaDB) (s : UInt64) : Decidable (db.ShardId s) :=
  inferInstanceAs (Decidable (1 ≤ s.toNat ∧ s.toNat ≤ db.shards.length))

/-- The calls on which the stores can agree: keys bolt accepts, non-empty metadata values, records
whose encodings bolt accepts, ids the store returned (also in a blob's chunk list), fewer than
`maxInt` records, and no `UnreferencedSectors`. `8 * n + 32` is the length of an encoded chunk of
`n` slots (`length_encChunk`). -/
def Legal (db : EphemeralMetaDB) : Call → Prop
  | .addBlob b => b.key ≠ [] ∧ b.key.length ≤ MaxKeySize ∧ (encBlob b).length ≤ MaxValueSize ∧
      ∀ cid ∈ b.chunks, db.ChunkId cid
  | .chunk id => db.ChunkId id
  | .setChunkShard id _ _ => db.ChunkId id
  | .shard id => db.ShardId id
  | .addShard s => db.shards.length < maxInt ∧ (encShard s).length ≤ MaxValueSize
  | .addChunk _ n _ => db.chunks.length < maxInt ∧ 8 * n.toNat + 32 ≤ MaxValueSize
  | .addChunkAndShards _ _ ss => db.shards.length + ss.length ≤ maxInt ∧ db.chunks.length < maxInt ∧
      (∀ s ∈ ss, (encShard s).length ≤ MaxValueSize) ∧ 8 * ss.length + 32 ≤ MaxValueSize
  | .addMetadata key val => key ≠ [] ∧ key.length ≤ MaxKeySize ∧ val ≠ [] ∧ val.length ≤ MaxValueSize
  | .unreferencedSectors => False
  | .blob _ | .deleteBlob _ | .forEachBlob _ | .metadata _ => True

instance (db : EphemeralMetaDB) : (c : Call) → Decidable (db.Legal c)
  | .addBlob b => inferInstanceAs (Decidable (b.key ≠ [] ∧ b.key.length ≤ MaxKeySize ∧
      (encBlob b).length ≤ MaxValueSize ∧ ∀ cid ∈ b.chunks, db.ChunkId cid))
  | .chunk id => inferInstanceAs (Decidable (db.ChunkId id))
  | .setChunkShard id _ _ => inferInstanceAs (Decidable (db.ChunkId id))
  | .shard id => inferInstanceAs (Decidable (db.ShardId id))
  | .addShard s =>
    inferInstanceAs (Decidable (db.shards.length < maxInt ∧ (encShard s).length ≤ MaxValueSize))
  | .addChunk _ n _ =>
    inferInstanceAs (Decidable (db.chunks.length < maxInt ∧ 8 * n.toNat + 32 ≤ MaxValueSize))
  | .addChunkAndShards _ _ ss => inferInstanceAs (Decidable (db.shards.length + ss.length ≤ maxInt ∧
      db.chunks.length < maxInt ∧ (∀ s ∈ ss, (encShard s).length ≤ MaxValueSize) ∧
      8 * ss.length + 32 ≤ MaxValueSize))
  | .addMetadata key val => inferInstanceAs (Decidable (key ≠ [] ∧ key.length ≤ MaxKeySize ∧
      val ≠ [] ∧ val.length ≤ MaxValueSize))
  | .unreferencedSectors => isFalse id
  | .blob _ | .deleteBlob _ | .forEachBlob _ | .metadata _ => isTrue trivial

/-- Every call of a run is legal in the store it meets (a run ends at a panic). -/
def LegalRun : EphemeralMetaDB → List Call → Prop
  | _, [] => True
  | db, c :: cs => db.Legal c ∧ match db.apply c with
    | .ok r => LegalRun r.2 cs
    | .error _ => True

instance instDecidableLegalRun : (db : EphemeralMetaDB) → (cs : List Call) → Decidable (LegalRun db cs)
  | _, [] => isTrue trivial
  | db, c :: cs =>
    match h : db.apply c with
    | .ok r =>
      haveI := instDecidableLegalRun r.2 cs
      decidable_of_iff (db.Legal c ∧ LegalRun r.2 cs) (by simp [LegalRun, h])
    | .error _ => decidable_of_iff (db.Legal c) (by simp [LegalRun, h])

end EphemeralMetaDB

/-! ## The simulation -/

/-- A bolt database holding a store in memory: the shards and chunks as numbered records, the blobs
and metadata under their keys, each record's encoding within `MaxValueSize`, every blob stored
under its own key and listing chunk ids the store returned, and no empty metadata value. -/
structure Sim (e : EphemeralMetaDB) (b : BoltMetaDB) : Prop where
  wf : e.Wf
  shards : Slots encShard e.shards (b.bucket .shards)
  chunks : Slots encChunk e.chunks (b.bucket .chunks)
  blobs : ∀ k, (b.bucket .blobs).kv.lookup k = (e.blobs.lookup k).map encBlob
  meta : ∀ k, (b.bucket .meta).kv.lookup k = e.meta.lookup k
  shard_size : ∀ s ∈ e.shards, (encShard s).length ≤ MaxValueSize
  chunk_size : ∀ c ∈ e.chunks, (encChunk c).length ≤ MaxValueSize
  blob_ok : ∀ k bl, e.blobs.lookup k = some bl →
    bl.key = k ∧ (encBlob bl).length ≤ MaxValueSize ∧ ∀ cid ∈ bl.chunks, e.ChunkId cid
  meta_ne_nil : ∀ k v, e.meta.lookup k = some v → v ≠ []

theorem sim_new : Sim EphemeralMetaDB.new BoltMetaDB.new :=
  ⟨EphemeralMetaDB.wf_new, Slots.empty, Slots.empty, by simp [EphemeralMetaDB.new, BoltMetaDB.new,
    Bucket.empty], by simp [EphemeralMetaDB.new, BoltMetaDB.new, Bucket.empty],
    by simp [EphemeralMetaDB.new], by simp [EphemeralMetaDB.new], by simp [EphemeralMetaDB.new],
    by simp [EphemeralMetaDB.new]⟩

/-- One call on both stores: the same panic, or answers that agree up to `Call.keyed` and stores
that are still simulated. -/
def StepAgree (e : EphemeralMetaDB) (b : BoltMetaDB) (c : Call) : Prop :=
  (∃ p, e.apply c = .error p ∧ b.apply [] c = .error p) ∨
    ∃ r e' b', e.apply c = .ok (r, e') ∧ b.apply [] c = .ok (c.keyed r, b') ∧ Sim e' b'

theorem forall_mem_append_singleton {α : Type} {P : α → Prop} {l : List α} {a : α}
    (hl : ∀ x ∈ l, P x) (ha : P a) : ∀ x ∈ l ++ [a], P x :=
  fun x hx => (List.mem_append.1 hx).elim (hl x) fun h => List.mem_singleton.1 h ▸ ha

/-! What bolt decodes from a record it stored. -/

theorem unmarshal_encShard_of_size {s : DBShard} (h : (encShard s).length ≤ MaxValueSize) :
    unmarshal decShard (encShard s) = (s, none) :=
  unmarshal_encShard (by simp [MaxValueSize] at h; omega)

theorem unmarshal_encChunk_of_size {c : DBChunk} (h : (encChunk c).length ≤ MaxValueSize) :
    unmarshal decChunk (encChunk c) = (c, none) :=
  unmarshal_encChunk (by simp [MaxValueSize] at h; omega)

theorem unmarshal_encBlob_of_size (key : Bytes) {b : DBBlob} (h : (encBlob b).length ≤ MaxValueSize) :
    unmarshal (decBlob key) (encBlob b) = (⟨key, b.chunks, b.seed⟩, none) :=
  unmarshal_encBlob key (by simp [MaxValueSize] at h; omega)

namespace Sim

variable {e : EphemeralMetaDB} {b : BoltMetaDB}

/-- `AddShard` on both stores, as a state change. -/
theorem pushShard (hs : Sim e b) {s : DBShard} (hlt : e.shards.length < maxInt)
    (hv : (encShard s).length ≤ MaxValueSize) :
    Sim { e with shards := e.shards ++ [s] } (b.setBucket .shards ((b.bucket .shards).push (encShard s))) :=
  ⟨⟨by simp only [maxInt, List.length_append] at hlt ⊢; simp; omega, hs.wf.chunks_len, hs.wf.chunk_id⟩,
    hs.shards.push (by simp only [maxInt] at hlt; omega) s, hs.chunks,
    hs.blobs, hs.meta, forall_mem_append_singleton hs.shard_size hv,
    hs.chunk_size, hs.blob_ok, hs.meta_ne_nil⟩

/-- A chunk added on both stores, as a state change. -/
theorem pushChunk (hs : Sim e b) {c : DBChunk} (hlt : e.chunks.length < maxInt)
    (hc : c.id = UInt64.ofNat e.chunks.length + 1) (hv : (encChunk c).length ≤ MaxValueSize) :
    Sim { e with chunks := e.chunks ++ [c] } (b.setBucket .chunks ((b.bucket .chunks).push (encChunk c))) :=
  ⟨⟨hs.wf.shards_len, by simp only [maxInt, List.length_append] at hlt ⊢; simp; omega,
      EphemeralMetaDB.wf_append_chunk hs.wf hc⟩,
    hs.shards, hs.chunks.push (by simp only [maxInt] at hlt; omega) c,
    hs.blobs, hs.meta, hs.shard_size,
    forall_mem_append_singleton hs.chunk_size hv,
    fun k bl h => (hs.blob_ok k bl h).imp_right (And.imp_right fun h cid hm => (h cid hm).mono (by simp)),
    hs.meta_ne_nil⟩

theorem addShard (hs : Sim e b) {s : DBShard} (hl : e.Legal (.addShard s)) : StepAgree e b (.addShard s) := by
  obtain ⟨hlt, hv⟩ := hl
  have hlen : e.shards.length + 1 < 2 ^ 64 := by simp only [maxInt] at hlt; omega
  have hid : (b.bucket .shards).seq + 1 = UInt64.ofNat (e.shards.length + 1) := UInt64.toNat.inj (by
    rw [hs.shards.toNat_seq_add_one hlen, toNat_ofNat64, Nat.mod_eq_of_lt hlen])
  refine .inr ⟨(.id (UInt64.ofNat (e.shards.length + 1)), none), _, _, ?_, ?_, hs.pushShard hlt hv⟩
  · simp [EphemeralMetaDB.apply, (EphemeralMetaDB.addShard_ok e).2 ⟨hlt, rfl⟩]
  · simp [BoltMetaDB.apply, BoltMetaDB.addShard_nil b hv, hid, Call.keyed]

theorem addChunk (hs : Sim e b) {m n : Int} {length : UInt64} (hl : e.Legal (.addChunk m n length)) :
    StepAgree e b (.addChunk m n length) := by
  obtain ⟨hlt, hv⟩ := hl
  by_cases hn : n < 0
  · exact .inl ⟨.makeSliceLen, by simp [EphemeralMetaDB.apply, EphemeralMetaDB.addChunk, makeSlice, hn],
      by simp [BoltMetaDB.apply, BoltMetaDB.addChunk_neg b [] hn]⟩
  · have hv' : (encChunk ⟨UInt64.ofNat e.chunks.length + 1, List.replicate n.toNat 0, uint8 m,
        length⟩).length ≤ MaxValueSize := by simpa using hv
    refine .inr ⟨(.chunk ⟨UInt64.ofNat e.chunks.length + 1, List.replicate n.toNat 0, uint8 m, length⟩,
      none), _, _, ?_, ?_, hs.pushChunk hlt rfl hv'⟩
    · simp [EphemeralMetaDB.apply, (EphemeralMetaDB.addChunk_ok e).2 ⟨Int.not_lt.1 hn, hlt, _, rfl, rfl⟩]
    · simp [BoltMetaDB.apply, BoltMetaDB.addChunk_nil b (Int.not_lt.1 hn) hv, hs.chunks.seq_eq,
        Call.keyed]

/-- The loop of `AddChunkAndShards` on both stores. -/
theorem addShards (hs : Sim e b) {ss : List DBShard} (hl : e.shards.length + ss.length ≤ maxInt)
    (hv : ∀ s ∈ ss, (encShard s).length ≤ MaxValueSize) :
    ∃ ids e' b', EphemeralMetaDB.addShards e ss = .ok (ids, e') ∧
      (BoltMetaDB.addShardsTx ss).run ⟨b, []⟩ = .ok (some ids, ⟨b', []⟩) ∧ Sim e' b' ∧
      e'.chunks = e.chunks ∧ ids.length = ss.length := by
  induction ss generalizing e b with
  | nil => exact ⟨[], e, b, rfl, rfl, hs, rfl, rfl⟩
  | cons s ss ih =>
    simp only [List.length_cons] at hl
    have hlt : e.shards.length < maxInt := by omega
    have hv₁ := hv s (.head _)
    obtain ⟨ids, e', b', he, hb, hs', hc, hids⟩ := ih (hs.pushShard hlt hv₁)
      (by simp; omega) fun x hx => hv x (.tail _ hx)
    have hlen : e.shards.length + 1 < 2 ^ 64 := by simp only [maxInt] at hlt; omega
    have hid : (b.bucket .shards).seq + 1 = UInt64.ofNat (e.shards.length + 1) := UInt64.toNat.inj (by
      rw [hs.shards.toNat_seq_add_one hlen, toNat_ofNat64, Nat.mod_eq_of_lt hlen])
    refine ⟨UInt64.ofNat (e.shards.length + 1) :: ids, e', b', ?_, ?_, hs', hc, by simp [hids]⟩
    · simp [EphemeralMetaDB.addShards, (EphemeralMetaDB.addShard_ok e).2 ⟨hlt, rfl⟩, he]
    · simp [BoltMetaDB.addShardsTx_cons_nil b hv₁, hb, hid, Except.map]

theorem addChunkAndShards (hs : Sim e b) {m : Int} {length : UInt64} {ss : List DBShard}
    (hl : e.Legal (.addChunkAndShards m length ss)) : StepAgree e b (.addChunkAndShards m length ss) := by
  obtain ⟨hsl, hcl, hv, hcv⟩ := hl
  obtain ⟨ids, e', b', he, hb, hs', hc, hids⟩ := hs.addShards hsl hv
  have hv' : (encChunk ⟨UInt64.ofNat e'.chunks.length + 1, ids, uint8 m, length⟩).length ≤
      MaxValueSize := by simpa [hids] using hcv
  refine .inr ⟨(.chunk ⟨UInt64.ofNat e'.chunks.length + 1, ids, uint8 m, length⟩, none), _, _, ?_, ?_,
    hs'.pushChunk (hc ▸ hcl) rfl hv'⟩
  · simp [EphemeralMetaDB.apply, EphemeralMetaDB.addChunkAndShards, he, append, hc, hcl]
  · simp [BoltMetaDB.apply, BoltMetaDB.addChunkAndShards_nil b hb (by omega), hs'.chunks.seq_eq,
      Call.keyed]

theorem setChunkShard (hs : Sim e b) {id : UInt64} {i : Int} {s : UInt64}
    (hl : e.Legal (.setChunkShard id i s)) : StepAgree e b (.setChunkShard id i s) := by
  obtain ⟨h1, h2⟩ := hl
  have hj : (id - 1).toNat < e.chunks.length := by rw [toNat_sub_one64 h1]; omega
  obtain ⟨c, hc⟩ : ∃ c, e.chunks[(id - 1).toNat]? = some c := ⟨_, List.getElem?_eq_getElem hj⟩
  have hcv := hs.chunk_size c (List.getElem?_mem hc)
  have hb := BoltMetaDB.setChunkShard_nil b (s := s) (i := i) (hs.chunks.lookup h1 hc) hcv
  by_cases hi : 0 ≤ i ∧ i.toNat < c.shards.length
  · obtain ⟨old, ho⟩ : ∃ old, c.shards[i.toNat]? = some old := ⟨_, List.getElem?_eq_getElem hi.2⟩
    have he : e.apply (.setChunkShard id i s) = .ok ((.unit, none), { e with
        chunks := e.chunks.set (id - 1).toNat { c with shards := c.shards.set i.toNat s }
        refs := (e.refs.add old (-1)).add s 1 }) := by
      simp [EphemeralMetaDB.apply, (EphemeralMetaDB.setChunkShard_ok e).2 ⟨c, old, hc, hi.1, ho, rfl⟩]
    refine .inr ⟨_, _, b.setBucket .chunks { b.bucket .chunks with
        kv := (b.bucket .chunks).kv.insert (le64 id) (encChunk { c with shards := c.shards.set i.toNat s }) },
      he,
      by simp [BoltMetaDB.apply, hb, setIndexInt, hi, Except.map, Call.keyed],
      ⟨hs.wf.apply he, hs.shards, ?_, hs.blobs, hs.meta,
        hs.shard_size, fun x hx => ?_, fun k bl h => ?_, hs.meta_ne_nil⟩⟩
    · simpa [toNat_sub_one64 h1] using hs.chunks.set h1 h2 { c with shards := c.shards.set i.toNat s }
    · rcases List.mem_or_eq_of_mem_set hx with hx | rfl
      · exact hs.chunk_size x hx
      · simpa using hcv
    · exact (hs.blob_ok k bl h).imp_right (And.imp_right fun h cid hm => (h cid hm).mono (by simp))
  · have hx : indexInt c.shards i = .error .indexOutOfRange := by
      unfold indexInt
      split_ifs with h0
      · rfl
      · rw [List.getElem?_eq_none (by omega)]
    exact .inl ⟨.indexOutOfRange,
      by simp only [EphemeralMetaDB.apply, EphemeralMetaDB.setChunkShard, index, hc, hx, ok_bind, error_bind],
      by simp [BoltMetaDB.apply, hb, setIndexInt, hi, Except.map]⟩

theorem addBlob (hs : Sim e b) {bl : DBBlob} (hl : e.Legal (.addBlob bl)) : StepAgree e b (.addBlob bl) := by
  obtain ⟨hk, hks, hv, hc⟩ := hl
  have he : e.apply (.addBlob bl) = .ok ((.unit, none), e.addBlob bl) := rfl
  refine .inr ⟨_, _, b.setBucket .blobs { b.bucket .blobs with
      kv := (b.bucket .blobs).kv.insert bl.key (encBlob bl) }, he,
    by simp [BoltMetaDB.apply, BoltMetaDB.addBlob_nil b hk hks hv, Call.keyed], hs.wf.apply he, hs.shards, hs.chunks, fun k => ?_, hs.meta,
    hs.shard_size, hs.chunk_size, fun k bl' h => ?_, hs.meta_ne_nil⟩
  · by_cases hk' : k = bl.key
    · subst hk'; simp [EphemeralMetaDB.addBlob]
    · simp [EphemeralMetaDB.addBlob, AList.lookup_insert_ne hk', hs.blobs k]
  · by_cases hk' : k = bl.key
    · subst hk'
      obtain rfl : bl = bl' := by simpa [EphemeralMetaDB.addBlob] using h
      exact ⟨rfl, hv, hc⟩
    · exact hs.blob_ok k bl' (by simpa [EphemeralMetaDB.addBlob, AList.lookup_insert_ne hk'] using h)

theorem deleteBlob (hs : Sim e b) (key : Bytes) : StepAgree e b (.deleteBlob key) := by
  have hb := BoltMetaDB.deleteBlob_nil b key
  have herase : ∀ k, ((b.bucket .blobs).kv.erase key).lookup k =
      ((e.blobs.erase key).lookup k).map encBlob := fun k => by
    by_cases hk : k = key
    · subst hk; simp
    · simp [AList.lookup_erase_ne hk, hs.blobs k]
  have hb' : b.apply [] (.deleteBlob key) = .ok ((.unit, none),
      b.setBucket .blobs { b.bucket .blobs with kv := (b.bucket .blobs).kv.erase key }) := by
    simp [BoltMetaDB.apply, hb]
  cases hl : e.blobs.lookup key with
  | none =>
    refine .inr ⟨(.unit, none), e, _, by simp [EphemeralMetaDB.apply, EphemeralMetaDB.deleteBlob, hl], hb',
      { hs with
        shards := hs.shards, chunks := hs.chunks,
        blobs := fun k => ?_, meta := hs.meta }⟩
    by_cases hk : k = key
    · subst hk; simp [hl]
    · simpa [AList.lookup_erase_ne hk] using herase k
  | some bl =>
    obtain ⟨refs, hr⟩ : ∃ refs, EphemeralMetaDB.decRefs e.chunks e.refs bl.chunks = .ok refs := by
      cases h : EphemeralMetaDB.decRefs e.chunks e.refs bl.chunks with
      | error p => exact absurd h (EphemeralMetaDB.decRefs_ne_error (hs.blob_ok key bl hl).2.2)
      | ok refs => exact ⟨refs, rfl⟩
    have he : e.apply (.deleteBlob key) = .ok ((.unit, none), { e with refs, blobs := e.blobs.erase key }) := by
      simp [EphemeralMetaDB.apply, EphemeralMetaDB.deleteBlob, hl, hr]
    refine .inr ⟨_, _, _, he, hb', hs.wf.apply he,
      hs.shards, hs.chunks, by simpa using herase, hs.meta,
      hs.shard_size, hs.chunk_size, fun k bl' h => ?_, hs.meta_ne_nil⟩
    by_cases hk : k = key
    · subst hk; simp at h
    · exact hs.blob_ok k bl' (by simpa [AList.lookup_erase_ne hk] using h)

/-- Bolt's `ForEach` and `sort.Strings` visit the same keys: the keys of the two maps. -/
theorem sortStrings_keys (hs : Sim e b) :
    sortStrings (b.bucket .blobs).kv.keys = sortStrings e.blobs.keys :=
  eq_of_sorted_of_mem_iff (sortStrings_sorted (AList.keys_nodup _))
    (sortStrings_sorted (AList.keys_nodup _)) fun k => by
      rw [(sortStrings_perm _).mem_iff, (sortStrings_perm _).mem_iff]
      change k ∈ (b.bucket .blobs).kv ↔ k ∈ e.blobs
      rw [← AList.lookup_isSome, ← AList.lookup_isSome, hs.blobs k, Option.isSome_map']

theorem forEachBlob (hs : Sim e b) (fn : Bytes → Option Nat) : StepAgree e b (.forEachBlob fn) :=
  .inr ⟨_, e, b, rfl, by
    simp [BoltMetaDB.apply, BoltMetaDB.forEachBlob_eq, hs.sortStrings_keys, EphemeralMetaDB.forEachBlob,
      Call.keyed], hs⟩

theorem blob (hs : Sim e b) (key : Bytes) : StepAgree e b (.blob key) := by
  refine .inr ⟨_, e, b, rfl, ?_, hs⟩
  cases hl : e.blobs.lookup key with
  | none => simp [BoltMetaDB.apply, BoltMetaDB.blob_eq, hs.blobs key, hl, EphemeralMetaDB.blob, Call.keyed]
  | some bl =>
    obtain ⟨rfl, hv, -⟩ := hs.blob_ok key bl hl
    simp [BoltMetaDB.apply, BoltMetaDB.blob_eq, hs.blobs, hl, EphemeralMetaDB.blob, Call.keyed,
      unmarshal_encBlob_of_size [] hv]

theorem metadata (hs : Sim e b) (key : Bytes) : StepAgree e b (.metadata key) := by
  refine .inr ⟨_, e, b, rfl, ?_, hs⟩
  cases hl : e.meta.lookup key with
  | none => simp [BoltMetaDB.apply, BoltMetaDB.metadata_eq, hs.meta key, hl, EphemeralMetaDB.metadata, Call.keyed]
  | some v =>
    simp [BoltMetaDB.apply, BoltMetaDB.metadata_eq, hs.meta key, hl, EphemeralMetaDB.metadata, Call.keyed,
      hs.meta_ne_nil key v hl]

theorem addMetadata (hs : Sim e b) {key val : Bytes} (hl : e.Legal (.addMetadata key val)) :
    StepAgree e b (.addMetadata key val) := by
  obtain ⟨hk, hks, hv0, hv⟩ := hl
  have he : e.apply (.addMetadata key val) = .ok ((.unit, none), e.addMetadata key val) := rfl
  refine .inr ⟨_, _, b.setBucket .meta { b.bucket .meta with
      kv := (b.bucket .meta).kv.insert key val }, he,
    by simp [BoltMetaDB.apply, BoltMetaDB.addMetadata_nil b hk hks hv, Call.keyed], hs.wf.apply he,
    hs.shards, hs.chunks, hs.blobs, fun k => ?_,
    hs.shard_size, hs.chunk_size, hs.blob_ok, fun k v h => ?_⟩
  · by_cases hk' : k = key
    · subst hk'; simp [EphemeralMetaDB.addMetadata]
    · simp [EphemeralMetaDB.addMetadata, AList.lookup_insert_ne hk', hs.meta k]
  · by_cases hk' : k = key
    · subst hk'
      obtain rfl : val = v := by simpa [EphemeralMetaDB.addMetadata] using h
      exact hv0
    · exact hs.meta_ne_nil k v (by simpa [EphemeralMetaDB.addMetadata, AList.lookup_insert_ne hk'] using h)

theorem shard (hs : Sim e b) {id : UInt64} (hl : e.Legal (.shard id)) : StepAgree e b (.shard id) := by
  obtain ⟨h1, h2⟩ := hl
  have hj : (id - 1).toNat < e.shards.length := by rw [toNat_sub_one64 h1]; omega
  obtain ⟨x, hx⟩ : ∃ x, e.shards[(id - 1).toNat]? = some x := ⟨_, List.getElem?_eq_getElem hj⟩
  exact .inr ⟨(.shard x, none), e, b, by simp [EphemeralMetaDB.apply, EphemeralMetaDB.shard, index, hx],
    by simp [BoltMetaDB.apply, BoltMetaDB.shard_eq, hs.shards.lookup h1 hx,
      unmarshal_encShard_of_size (hs.shard_size x (List.getElem?_mem hx)), Call.keyed], hs⟩

theorem chunk (hs : Sim e b) {id : UInt64} (hl : e.Legal (.chunk id)) : StepAgree e b (.chunk id) := by
  obtain ⟨h1, h2⟩ := hl
  have hj : (id - 1).toNat < e.chunks.length := by rw [toNat_sub_one64 h1]; omega
  obtain ⟨x, hx⟩ : ∃ x, e.chunks[(id - 1).toNat]? = some x := ⟨_, List.getElem?_eq_getElem hj⟩
  have h0 : id ≠ 0 := fun h => by subst h; simp at h1
  exact .inr ⟨(.chunk x, none), e, b,
    by simp [EphemeralMetaDB.apply, EphemeralMetaDB.chunk, h0, index, hx],
    by simp [BoltMetaDB.apply, BoltMetaDB.chunk_eq, hs.chunks.lookup h1 hx,
      unmarshal_encChunk_of_size (hs.chunk_size x (List.getElem?_mem hx)), Call.keyed], hs⟩

end Sim

/-! ## Runs -/

/-- **Every legal call keeps the simulation**, and the two stores answer it alike up to
`Call.keyed`, or panic alike. -/
theorem sim_step {e : EphemeralMetaDB} {b : BoltMetaDB} (hs : Sim e b) {c : Call} (hl : e.Legal c) :
    StepAgree e b c := by
  cases c with
  | addBlob bl => exact hs.addBlob hl
  | blob key => exact hs.blob key
  | deleteBlob key => exact hs.deleteBlob key
  | forEachBlob fn => exact hs.forEachBlob fn
  | addChunk => exact hs.addChunk hl
  | chunk => exact hs.chunk hl
  | setChunkShard => exact hs.setChunkShard hl
  | addShard => exact hs.addShard hl
  | shard => exact hs.shard hl
  | addChunkAndShards => exact hs.addChunkAndShards hl
  | unreferencedSectors => exact hl.elim
  | addMetadata => exact hs.addMetadata hl
  | metadata key => exact hs.metadata key

/-- Runs from simulated stores: the answers agree call by call, or both runs panic alike. -/
theorem sim_run {e : EphemeralMetaDB} {b : BoltMetaDB} (hs : Sim e b) {cs : List Call}
    (hl : e.LegalRun cs) :
    (b.run cs).map Prod.fst = (e.run cs).map fun r => List.zipWith Call.keyed cs r.1 := by
  induction cs generalizing e b with
  | nil => rfl
  | cons c cs ih =>
    rcases sim_step hs hl.1 with ⟨p, he, hb⟩ | ⟨r, e', b', he, hb, hs'⟩
    · simp only [EphemeralMetaDB.run, BoltMetaDB.run, he, hb, error_bind, Except.map]
    · have hrun := ih hs' (by simpa [EphemeralMetaDB.LegalRun, he] using hl.2)
      simp only [EphemeralMetaDB.run, BoltMetaDB.run, he, hb, ok_bind]
      cases hE : e'.run cs <;> cases hB : b'.run cs <;>
        simp only [hE, hB, Except.map, error_bind, ok_bind, pure, Except.pure, reduceCtorEq,
          Except.error.injEq, Except.ok.injEq, List.zipWith_cons_cons, List.cons.injEq, true_and]
          at hrun ⊢ <;>
        exact hrun

/-- A run outside `Legal`: an empty metadata value, a missing blob, an empty key. -/
def disagreeRun : List Call := [.addMetadata [1] [], .metadata [1], .blob [2], .addBlob ⟨[], [], default⟩]

/-- **The stores disagree.** Memory finds the empty metadata value, bolt does not; for the missing
blob bolt returns one with the key asked for; bolt refuses the empty key. -/
theorem stores_disagree :
    (EphemeralMetaDB.new.run disagreeRun).map Prod.fst =
      .ok [(.unit, none), (.bytes [], none), (.blob default, some .keyNotFound), (.unit, none)] ∧
    (BoltMetaDB.new.run disagreeRun).map Prod.fst =
      .ok [(.unit, none), (.bytes [], some .keyNotFound), (.blob ⟨[2], [], default⟩, some .keyNotFound),
        (.unit, some (.bolt .keyRequired))] :=
  ⟨rfl, rfl⟩

/-- **`BoltMetaDB` refines `EphemeralMetaDB`.** From the two new stores, on every legal sequence of
calls, `BoltMetaDB` on a file that never fails returns what `EphemeralMetaDB` returns, call by call,
up to the key of a `Blob` not found; or both panic at the same call with the same panic. -/
theorem bolt_refines_ephemeral {calls : List Call} (h : EphemeralMetaDB.new.LegalRun calls) :
    (BoltMetaDB.new.run calls).map Prod.fst =
      (EphemeralMetaDB.new.run calls).map fun r => List.zipWith Call.keyed calls r.1 :=
  sim_run sim_new h

/-- A legal run through every call but `UnreferencedSectors`. -/
def sampleRun : List Call :=
  [.addShard ⟨[1], default, 0, default⟩, .addChunk 1 1 0, .setChunkShard 1 0 1,
    .addChunkAndShards 1 0 [⟨[2], default, 0, default⟩], .addBlob ⟨[1], [1, 2], default⟩, .blob [1],
    .blob [2], .forEachBlob fun _ => none, .chunk 2, .shard 2, .addMetadata [1] [1], .metadata [1],
    .deleteBlob [1]]

theorem bolt_refines_sampleRun : EphemeralMetaDB.new.LegalRun sampleRun ∧
    (BoltMetaDB.new.run sampleRun).map Prod.fst =
      (EphemeralMetaDB.new.run sampleRun).map fun r => List.zipWith Call.keyed sampleRun r.1 :=
  ⟨by decide, bolt_refines_ephemeral (by decide)⟩

end Us.Store
