import Us.Store.Records

/-!
# `EphemeralMetaDB`, the in-memory store

Each method of `EphemeralMetaDB` as the code computes it, on an explicit state, and a run of calls
as a sequence of whole calls (`run`); the lock `db.mu` is left out. Every method holds it for the
whole call but two: `AddChunkAndShards` takes it in each of its `AddShard` calls and once more to
append the chunk, and `ForEachBlob` releases it before calling back, so concurrent callers can also
run between those steps, which `run` does not model. A method returns its value and error, or panics: an index out of range
(`db.chunks[id-1]`, `db.shards[sid-1]`, `Shards[i]`), `make` with a negative length, or the explicit
`panic("GetChunk: unset id")`. A panic ends the run.

`refs` is a Go map: `db.refs[k]--` on an absent key stores `-1` (`GoMap.add`), and a count brought
back to zero stays in the map.
-/

set_option autoImplicit false

namespace Us.Store

/-- `EphemeralMetaDB` implements `MetaDB` in memory. -/
structure EphemeralMetaDB where
  shards : List DBShard
  chunks : List DBChunk
  blobs : GoMap Bytes DBBlob
  refs : GoMap UInt64 Int
  meta : GoMap Bytes Bytes

namespace EphemeralMetaDB

/-- `NewEphemeralMetaDB()`. -/
def new : EphemeralMetaDB := ⟨[], [], ∅, ∅, ∅⟩

variable (db : EphemeralMetaDB)

/-- `AddShard`: append the shard; its id is the new length. -/
def addShard (s : DBShard) : Except Panic (UInt64 × EphemeralMetaDB) := do
  let shards ← append db.shards s
  pure (UInt64.ofNat shards.length, { db with shards })

/-- `Shard`: `db.shards[id-1]`. -/
def shard (id : UInt64) : Except Panic DBShard := index db.shards (id - 1)

/-- `AddChunk`: a chunk of `n` unset (zero) shard slots. -/
def addChunk (m n : Int) (length : UInt64) : Except Panic (DBChunk × EphemeralMetaDB) := do
  let shards ← makeSlice n
  let c : DBChunk :=
    { id := UInt64.ofNat db.chunks.length + 1, shards, minShards := uint8 m, len := length }
  let chunks ← append db.chunks c
  pure (c, { db with chunks })

/-- `SetChunkShard`: `refs[old]--`, store `s` in slot `i`, `refs[s]++`. -/
def setChunkShard (id : UInt64) (i : Int) (s : UInt64) : Except Panic EphemeralMetaDB := do
  let c ← index db.chunks (id - 1)
  let old ← indexInt c.shards i
  pure { db with
    chunks := db.chunks.set (id - 1).toNat { c with shards := c.shards.set i.toNat s }
    refs := (db.refs.add old (-1)).add s 1 }

/-- The loop of `AddChunkAndShards`: `AddShard` each shard in turn, collecting the ids. -/
def addShards : EphemeralMetaDB → List DBShard → Except Panic (List UInt64 × EphemeralMetaDB)
  | db, [] => .ok ([], db)
  | db, s :: ss => do
    let r ← db.addShard s
    let rs ← addShards r.2 ss
    pure (r.1 :: rs.1, rs.2)

/-- `AddChunkAndShards`: add the shards, then a chunk holding their ids. `refs` is not touched. -/
def addChunkAndShards (m : Int) (length : UInt64) (ss : List DBShard) :
    Except Panic (DBChunk × EphemeralMetaDB) := do
  let r ← addShards db ss
  let c : DBChunk :=
    { id := UInt64.ofNat r.2.chunks.length + 1, shards := r.1, minShards := uint8 m, len := length }
  let chunks ← append r.2.chunks c
  pure (c, { r.2 with chunks })

/-- `Chunk`: panics on the unset id 0, else `db.chunks[id-1]`. -/
def chunk (id : UInt64) : Except Panic DBChunk :=
  if id = 0 then .error (.explicit "GetChunk: unset id") else index db.chunks (id - 1)

/-- `AddBlob`: `db.blobs[string(b.Key)] = b`, replacing a blob of the same key. -/
def addBlob (b : DBBlob) : EphemeralMetaDB := { db with blobs := db.blobs.insert b.key b }

/-- `Blob`. -/
def blob (key : Bytes) : DBBlob × Option MetaErr :=
  match db.blobs.lookup key with
  | some b => (b, none)
  | none => (default, some .keyNotFound)

/-- The loops of `DeleteBlob`: `refs[sid]--` for every slot of every chunk the blob lists. -/
def decRefs (chunks : List DBChunk) : GoMap UInt64 Int → List UInt64 → Except Panic (GoMap UInt64 Int)
  | refs, [] => .ok refs
  | refs, cid :: cids => do
    let c ← index chunks (cid - 1)
    decRefs chunks (c.shards.foldl (fun r sid => r.add sid (-1)) refs) cids

/-- `DeleteBlob`: a no-op on an absent key; else decrement the blob's references and remove it. -/
def deleteBlob (key : Bytes) : Except Panic EphemeralMetaDB :=
  match db.blobs.lookup key with
  | none => .ok db
  | some b => do
    let refs ← decRefs db.chunks db.refs b.chunks
    pure { db with refs, blobs := db.blobs.erase key }

/-- `ForEachBlob`: the keys, sorted, each passed to `fn` until it returns an error. -/
def forEachBlob (fn : Bytes → Option Nat) : List Bytes × Option MetaErr :=
  visit fn (sortStrings db.blobs.keys)

/-- The loop of `UnreferencedSectors` over the entries of `refs`. -/
def collectUnreferenced (shards : List DBShard) :
    GoMap HostPublicKey (List Hash) → List (Σ _ : UInt64, Int) →
      Except Panic (GoMap HostPublicKey (List Hash))
  | m, [] => .ok m
  | m, ⟨sid, n⟩ :: rest =>
    if n = 0 then do
      let s ← index shards (sid - 1)
      collectUnreferenced shards (m.insert s.hostKey ((m.lookup s.hostKey).getD [] ++ [s.sectorRoot]))
        rest
    else collectUnreferenced shards m rest

/-- `UnreferencedSectors`: the sector of every shard whose count in `refs` is zero, by host. -/
def unreferencedSectors : Except Panic (GoMap HostPublicKey (List Hash)) :=
  collectUnreferenced db.shards ∅ db.refs.entries

/-- `AddMetadata`. -/
def addMetadata (key val : Bytes) : EphemeralMetaDB := { db with meta := db.meta.insert key val }

/-- `Metadata`. -/
def metadata (key : Bytes) : Bytes × Option MetaErr :=
  match db.meta.lookup key with
  | some v => (v, none)
  | none => ([], some .keyNotFound)

/-- One call: what it returns, and the store after it. -/
def apply : Call → Except Panic ((Ret × Option MetaErr) × EphemeralMetaDB)
  | .addBlob b => .ok ((.unit, none), db.addBlob b)
  | .blob key => .ok ((.blob (db.blob key).1, (db.blob key).2), db)
  | .deleteBlob key => do let db' ← db.deleteBlob key; pure ((.unit, none), db')
  | .forEachBlob fn => .ok ((.visited (db.forEachBlob fn).1, (db.forEachBlob fn).2), db)
  | .addChunk m n length => do
    let r ← db.addChunk m n length
    pure ((.chunk r.1, none), r.2)
  | .chunk id => do let c ← db.chunk id; pure ((.chunk c, none), db)
  | .setChunkShard id i s => do let db' ← db.setChunkShard id i s; pure ((.unit, none), db')
  | .addShard s => do let r ← db.addShard s; pure ((.id r.1, none), r.2)
  | .shard id => do let s ← db.shard id; pure ((.shard s, none), db)
  | .addChunkAndShards m length ss => do
    let r ← db.addChunkAndShards m length ss
    pure ((.chunk r.1, none), r.2)
  | .unreferencedSectors => do let m ← db.unreferencedSectors; pure ((.sectors m, none), db)
  | .addMetadata key val => .ok ((.unit, none), db.addMetadata key val)
  | .metadata key => .ok ((.bytes (db.metadata key).1, (db.metadata key).2), db)

/-- A sequence of calls from `db`: what each returns, and the final store; a panic ends it. -/
def run : EphemeralMetaDB → List Call → Except Panic (List (Ret × Option MetaErr) × EphemeralMetaDB)
  | db, [] => .ok ([], db)
  | db, c :: cs => do
    let r ← db.apply c
    let rs ← run r.2 cs
    pure (r.1 :: rs.1, rs.2)

/-! ## What each method does -/

theorem addShard_ok {s : DBShard} {r : UInt64 × EphemeralMetaDB} :
    db.addShard s = .ok r ↔ db.shards.length < maxInt ∧
      r = (UInt64.ofNat (db.shards.length + 1), { db with shards := db.shards ++ [s] }) := by
  simp only [addShard, bind_ok, append_ok, pure_ok]
  constructor
  · rintro ⟨_, ⟨h, rfl⟩, rfl⟩; simp [h]
  · rintro ⟨h, rfl⟩; exact ⟨_, ⟨h, rfl⟩, by simp⟩

theorem addChunk_ok {m n : Int} {length : UInt64} {r : DBChunk × EphemeralMetaDB} :
    db.addChunk m n length = .ok r ↔ 0 ≤ n ∧ db.chunks.length < maxInt ∧
      ∃ c : DBChunk, c = ⟨UInt64.ofNat db.chunks.length + 1, List.replicate n.toNat 0, uint8 m,
        length⟩ ∧ r = (c, { db with chunks := db.chunks ++ [c] }) := by
  simp only [addChunk, makeSlice, bind_ok, append_ok, pure_ok]
  by_cases hn : n < 0
  · simp [hn]
  · simp only [hn, if_false, Except.ok.injEq, exists_eq_left', not_lt.1 hn, true_and]
    constructor
    · rintro ⟨_, ⟨h, rfl⟩, rfl⟩; exact ⟨h, _, rfl, rfl⟩
    · rintro ⟨h, _, rfl, rfl⟩; exact ⟨_, ⟨h, rfl⟩, rfl⟩

theorem setChunkShard_ok {id : UInt64} {i : Int} {s : UInt64} {db' : EphemeralMetaDB} :
    db.setChunkShard id i s = .ok db' ↔ ∃ c old, db.chunks[(id - 1).toNat]? = some c ∧ 0 ≤ i ∧
      c.shards[i.toNat]? = some old ∧
      db' = { db with
        chunks := db.chunks.set (id - 1).toNat { c with shards := c.shards.set i.toNat s }
        refs := (db.refs.add old (-1)).add s 1 } := by
  simp only [setChunkShard, bind_ok, index_ok, indexInt_ok, pure_ok]
  constructor
  · rintro ⟨c, hc, old, ⟨hi, ho⟩, rfl⟩; exact ⟨c, old, hc, hi, ho, rfl⟩
  · rintro ⟨c, old, hc, hi, ho, rfl⟩; exact ⟨c, hc, old, ⟨hi, ho⟩, rfl⟩

theorem deleteBlob_ok {key : Bytes} {db' : EphemeralMetaDB} :
    db.deleteBlob key = .ok db' ↔ (db.blobs.lookup key = none ∧ db' = db) ∨
      ∃ b, db.blobs.lookup key = some b ∧ ∃ refs, decRefs db.chunks db.refs b.chunks = .ok refs ∧
        db' = { db with refs, blobs := db.blobs.erase key } := by
  unfold deleteBlob
  cases db.blobs.lookup key with
  | none => simp [eq_comm]
  | some b =>
    simp only [bind_ok, pure_ok, reduceCtorEq, false_and, Option.some.injEq, exists_eq_left',
      false_or]
    exact exists_congr fun _ => and_congr_right fun _ => eq_comm

theorem addShards_ok {ss : List DBShard} (h : db.shards.length ≤ maxInt)
    {r : List UInt64 × EphemeralMetaDB} :
    addShards db ss = .ok r ↔ db.shards.length + ss.length ≤ maxInt ∧
      r = ((List.range ss.length).map fun j => UInt64.ofNat (db.shards.length + j + 1),
        { db with shards := db.shards ++ ss }) := by
  induction ss generalizing db r with
  | nil => simp [addShards, h, eq_comm]
  | cons s ss ih =>
    simp only [addShards, bind_ok, pure_ok, addShard_ok]
    constructor
    · rintro ⟨_, ⟨hlt, rfl⟩, _, hr, rfl⟩
      obtain ⟨hl, rfl⟩ := (ih { db with shards := db.shards ++ [s] } (by simp; omega)).1 hr
      refine ⟨by simp at hl ⊢; omega, ?_⟩
      simp [List.range_succ_eq_map, Nat.add_assoc, Nat.add_comm 1]
    · rintro ⟨hl, rfl⟩
      simp only [List.length_cons] at hl
      refine ⟨_, ⟨by omega, rfl⟩, _,
        (ih { db with shards := db.shards ++ [s] } (by simp; omega)).2 ⟨by simp; omega, rfl⟩, ?_⟩
      simp [List.range_succ_eq_map, Nat.add_assoc, Nat.add_comm 1]

/-! ## Well-formed stores -/

/-- What every reachable store satisfies: its slices are no longer than `maxInt`, and the chunk
at position `i` has id `i + 1`. -/
structure Wf (db : EphemeralMetaDB) : Prop where
  shards_len : db.shards.length ≤ maxInt
  chunks_len : db.chunks.length ≤ maxInt
  chunk_id : ∀ i c, db.chunks[i]? = some c → c.id = UInt64.ofNat (i + 1)

theorem wf_new : Wf new := ⟨by simp [new], by simp [new], by simp [new]⟩

/-- The chunks of a store after one call. -/
theorem wf_append_chunk {db : EphemeralMetaDB} (hw : Wf db) {c : DBChunk}
    (hc : c.id = UInt64.ofNat db.chunks.length + 1) (i : Nat) (c' : DBChunk)
    (h : (db.chunks ++ [c])[i]? = some c') : c'.id = UInt64.ofNat (i + 1) := by
  by_cases hi : i < db.chunks.length
  · rw [List.getElem?_append_left hi] at h
    exact hw.chunk_id i c' h
  · rw [List.getElem?_append_right (by omega)] at h
    obtain ⟨hlt, he⟩ := List.getElem?_eq_some_iff.1 h
    obtain rfl : i = db.chunks.length := by simp at hlt; omega
    simp only [Nat.sub_self, List.getElem_cons_zero] at he
    subst he
    rw [hc]
    exact UInt64.toNat.inj (by
      rw [toNat_add64, toNat_ofNat64, toNat_ofNat64, show (1 : UInt64).toNat = 1 from rfl]
      omega)

theorem Wf.apply {db : EphemeralMetaDB} (hw : Wf db) {c : Call} {r : Ret × Option MetaErr}
    {db' : EphemeralMetaDB} (h : db.apply c = .ok (r, db')) : Wf db' := by
  cases c with
  | addShard s =>
    simp only [EphemeralMetaDB.apply, bind_ok, pure_ok, Prod.mk.injEq] at h
    obtain ⟨_, hd, -, rfl⟩ := h
    obtain ⟨hl, rfl⟩ := (addShard_ok db).1 hd
    exact ⟨by simp; omega, hw.chunks_len, hw.chunk_id⟩
  | addChunk m n length =>
    simp only [EphemeralMetaDB.apply, bind_ok, pure_ok, Prod.mk.injEq] at h
    obtain ⟨_, hd, -, rfl⟩ := h
    obtain ⟨-, hl, c, rfl, rfl⟩ := (addChunk_ok db).1 hd
    exact ⟨hw.shards_len, by simp; omega, wf_append_chunk hw rfl⟩
  | addChunkAndShards m length ss =>
    simp only [EphemeralMetaDB.apply, addChunkAndShards, bind_ok, pure_ok, append_ok,
      Prod.mk.injEq] at h
    obtain ⟨_, ⟨_, hs, _, ⟨hl, rfl⟩, rfl⟩, -, rfl⟩ := h
    obtain ⟨hsl, rfl⟩ := (addShards_ok db hw.shards_len).1 hs
    exact ⟨by simp at hsl ⊢; omega, by simp at hl ⊢; omega, wf_append_chunk hw rfl⟩
  | setChunkShard id i s =>
    simp only [EphemeralMetaDB.apply, bind_ok, pure_ok, Prod.mk.injEq] at h
    obtain ⟨_, hd, -, rfl⟩ := h
    obtain ⟨c, old, hc, -, -, rfl⟩ := (setChunkShard_ok db).1 hd
    refine ⟨hw.shards_len, by simpa using hw.chunks_len, fun j c' hj => ?_⟩
    rw [List.getElem?_set] at hj
    split_ifs at hj with he
    · obtain rfl := (Option.some.inj hj).symm
      exact hw.chunk_id j c (he ▸ hc)
    · exact hw.chunk_id j c' hj
  | deleteBlob key =>
    simp only [EphemeralMetaDB.apply, bind_ok, pure_ok, Prod.mk.injEq] at h
    obtain ⟨_, hd, -, rfl⟩ := h
    rcases (deleteBlob_ok db).1 hd with ⟨-, rfl⟩ | ⟨b, -, refs, -, rfl⟩
    · exact hw
    · exact ⟨hw.shards_len, hw.chunks_len, hw.chunk_id⟩
  | addBlob | addMetadata | blob | forEachBlob | metadata =>
    obtain ⟨-, rfl⟩ := Prod.mk.inj (Except.ok.inj h)
    exact ⟨hw.shards_len, hw.chunks_len, hw.chunk_id⟩
  | chunk | shard | unreferencedSectors =>
    simp only [EphemeralMetaDB.apply, bind_ok, pure_ok, Prod.mk.injEq] at h
    obtain ⟨_, -, -, rfl⟩ := h
    exact hw

/-! ## `ForEachBlob` -/

/-- **`ForEachBlob`** passes `fn` the keys of the blobs in strictly ascending byte order, each
once: all of them when `fn` never fails, and otherwise up to the first it fails on, whose error it
returns. -/
theorem forEachBlob_visits (db : EphemeralMetaDB) (fn : Bytes → Option Nat) :
    ∃ keys : List Bytes, keys.Pairwise Bytes.lt ∧ (∀ k, k ∈ keys ↔ k ∈ db.blobs) ∧
      ((db.forEachBlob fn = (keys, none) ∧ ∀ k ∈ keys, fn k = none) ∨
        ∃ pre k post n, keys = pre ++ k :: post ∧ (∀ k' ∈ pre, fn k' = none) ∧ fn k = some n ∧
          db.forEachBlob fn = (pre ++ [k], some (.callback n))) :=
  ⟨_, sortStrings_sorted db.blobs.keys_nodup,
    fun _ => (sortStrings_perm _).mem_iff.trans AList.mem_keys, visit_spec fn _⟩

end EphemeralMetaDB

end Us.Store
