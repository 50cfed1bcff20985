import Us.Store.Encoding

/-!
# `BoltMetaDB`, the store on a bolt database

Each method of `BoltMetaDB` as the code computes it, over a model of the bolt database under it
(bolt is a library, not in the source here; the model follows its documented behaviour):

* A database is the four buckets `NewBoltMetaDB` creates, each a map from keys to values with a
  sequence counter. `Get` of a missing key is `nil`; `ForEach` visits the keys in byte order.
* `Put` checks its key and value (`ErrKeyRequired`, `ErrKeyTooLarge`, `ErrValueTooLarge`).
  `NextSequence`, `Put`, `Delete` and the commit can also fail in the file underneath: those
  failures are an argument of each transaction, `faults`, the answer of each fallible step in turn
  (`none` once the list is used up). A file that never fails is `faults = []`.
* `update` is `db.Update(fn)`: a closure returning an error rolls back, and so does a failed
  commit; a panic in the closure rolls back and propagates, which ends the run. `view` is
  `db.View(fn)`.

The closures assign the methods' named results, so a method returns what its closure set and the
error `Update` or `View` returned. `Sia` decoding is `unmarshal` (`Encoding.lean`).

Beside the definitions, one lemma per method for a file that never fails (`addShard_nil`, ...):
what it returns and the buckets after it.
-/

set_option autoImplicit false

namespace Us.Store

/-- bolt's `MaxKeySize`. -/
def MaxKeySize : Nat := 32768

/-- bolt's `MaxValueSize`, `(1 << 31) - 2`. -/
def MaxValueSize : Nat := 2 ^ 31 - 2

/-- A bucket: its keys and values, and its sequence counter. -/
structure Bucket where
  kv : GoMap Bytes Bytes
  seq : UInt64

namespace Bucket

/-- A bucket as `CreateBucketIfNotExists` makes it. -/
def empty : Bucket := ⟨∅, 0⟩

/-- `Put`'s checks, then the write. -/
def put (b : Bucket) (key value : Bytes) : Except BoltErr Bucket :=
  if key = [] then .error .keyRequired
  else if MaxKeySize < key.length then .error .keyTooLarge
  else if MaxValueSize < value.length then .error .valueTooLarge
  else .ok { b with kv := b.kv.insert key value }

/-- `NextSequence` and then `Put` of `value` under the new number, as `addShard` and `addChunk`
store a record. -/
def push (b : Bucket) (value : Bytes) : Bucket := ⟨b.kv.insert (le64 (b.seq + 1)) value, b.seq + 1⟩

theorem put_ok {b : Bucket} {key value : Bytes} (hk : key ≠ []) (hks : key.length ≤ MaxKeySize)
    (hv : value.length ≤ MaxValueSize) : b.put key value = .ok { b with kv := b.kv.insert key value } := by
  simp [put, hk, Nat.not_lt.2 hks, Nat.not_lt.2 hv]

theorem put_le64 {b : Bucket} {x : UInt64} {value : Bytes} (hv : value.length ≤ MaxValueSize) :
    b.put (le64 x) value = .ok { b with kv := b.kv.insert (le64 x) value } :=
  put_ok (List.ne_nil_of_length_pos (by simp)) (by simp [MaxKeySize]) hv

end Bucket

/-- `bucketBlobs`, `bucketChunks`, `bucketShards`, `bucketMeta`. -/
inductive BucketName where
  | blobs | chunks | shards | meta
deriving DecidableEq, Repr

/-- `BoltMetaDB` implements `MetaDB` with a bolt database, here the buckets of that database. -/
structure BoltMetaDB where
  bucket : BucketName → Bucket

/-- The database with bucket `n` replaced. -/
def BoltMetaDB.setBucket (db : BoltMetaDB) (n : BucketName) (b : Bucket) : BoltMetaDB :=
  ⟨Function.update db.bucket n b⟩

@[simp] theorem BoltMetaDB.bucket_setBucket (db : BoltMetaDB) (n m : BucketName) (b : Bucket) :
    (db.setBucket n b).bucket m = if m = n then b else db.bucket m :=
  Function.update_apply _ _ _ _

@[simp] theorem BoltMetaDB.setBucket_setBucket (db : BoltMetaDB) (n : BucketName) (b b' : Bucket) :
    (db.setBucket n b).setBucket n b' = db.setBucket n b' :=
  congrArg BoltMetaDB.mk (Function.update_idem _ _ _)

/-! ## Transactions -/

/-- A transaction: the buckets as it has changed them, and the failures still to come. -/
structure Tx where
  db : BoltMetaDB
  faults : List (Option BoltErr)

/-- A transaction's closure; it may panic. -/
abbrev TxM := StateT Tx (Except Panic)

namespace Tx

/-- The answer of the file underneath to the next fallible step. -/
def fault : TxM (Option BoltErr) := fun tx =>
  .ok (tx.faults.head?.join, { tx with faults := tx.faults.tail })

/-- `tx.Bucket(n).Get(key)`. -/
def get (n : BucketName) (key : Bytes) : TxM (Option Bytes) := fun tx =>
  .ok ((tx.db.bucket n).kv.lookup key, tx)

/-- A step the file underneath can fail: the next failure, reported as `fail`, or else `op` on
the buckets. -/
def fallible {α : Type} (fail : BoltErr → α) (op : BoltMetaDB → α × BoltMetaDB) : TxM α := do
  match ← fault with
  | some e => return fail e
  | none => modifyGet fun tx => let r := op tx.db; (r.1, { tx with db := r.2 })

/-- `tx.Bucket(n).NextSequence()`: the counter, incremented. -/
def nextSequence (n : BucketName) : TxM (UInt64 × Option MetaErr) :=
  fallible (fun e => (0, some (.bolt e))) fun db =>
    let b := db.bucket n
    ((b.seq + 1, none), db.setBucket n { b with seq := b.seq + 1 })

/-- `tx.Bucket(n).Put(key, value)`. -/
def put (n : BucketName) (key value : Bytes) : TxM (Option MetaErr) :=
  fallible (fun e => some (.bolt e)) fun db =>
    match (db.bucket n).put key value with
    | .ok b => (none, db.setBucket n b)
    | .error e => (some (.bolt e), db)

/-- `tx.Bucket(n).Delete(key)`; a missing key is no error. -/
def delete (n : BucketName) (key : Bytes) : TxM (Option MetaErr) :=
  fallible (fun e => some (.bolt e)) fun db =>
    let b := db.bucket n
    (none, db.setBucket n { b with kv := b.kv.erase key })

/-- `tx.Bucket(n).ForEach(fn)`: the keys in byte order, until `fn` returns an error. -/
def forEach (n : BucketName) (fn : Bytes → Option Nat) : TxM (List Bytes × Option MetaErr) :=
  fun tx => .ok (visit fn (sortStrings (tx.db.bucket n).kv.keys), tx)

@[simp] theorem run_fault_nil (db : BoltMetaDB) : fault.run ⟨db, []⟩ = .ok (none, ⟨db, []⟩) := rfl

theorem run_fallible {α : Type} (fail : BoltErr → α) (op : BoltMetaDB → α × BoltMetaDB) (tx : Tx) :
    (fallible fail op).run tx = .ok (match tx.faults.head?.join with
      | some e => (fail e, ⟨tx.db, tx.faults.tail⟩)
      | none => ((op tx.db).1, ⟨(op tx.db).2, tx.faults.tail⟩)) := by
  rcases tx with ⟨db, _ | ⟨_ | e, fs⟩⟩ <;> rfl

@[simp] theorem run_get (n : BucketName) (key : Bytes) (tx : Tx) :
    (get n key).run tx = .ok ((tx.db.bucket n).kv.lookup key, tx) := rfl

@[simp] theorem run_forEach (n : BucketName) (fn : Bytes → Option Nat) (tx : Tx) :
    (forEach n fn).run tx = .ok (visit fn (sortStrings (tx.db.bucket n).kv.keys), tx) := rfl

@[simp] theorem run_nextSequence_nil (n : BucketName) (db : BoltMetaDB) :
    (nextSequence n).run ⟨db, []⟩ = .ok (((db.bucket n).seq + 1, none),
      ⟨db.setBucket n { db.bucket n with seq := (db.bucket n).seq + 1 }, []⟩) := rfl

@[simp] theorem run_put_nil (n : BucketName) (key value : Bytes) (db : BoltMetaDB) :
    (put n key value).run ⟨db, []⟩ = .ok (match (db.bucket n).put key value with
      | .ok b => (none, ⟨db.setBucket n b, []⟩)
      | .error e => (some (.bolt e), ⟨db, []⟩)) := by
  rw [put, run_fallible]; cases (db.bucket n).put key value <;> rfl

@[simp] theorem run_delete_nil (n : BucketName) (key : Bytes) (db : BoltMetaDB) :
    (delete n key).run ⟨db, []⟩ =
      .ok (none, ⟨db.setBucket n { db.bucket n with kv := (db.bucket n).kv.erase key }, []⟩) := rfl

end Tx

/-- `db.Update(fn)`: what the closure set, and the error `Update` returns. -/
def update {α : Type} (fn : TxM (α × Option MetaErr)) (faults : List (Option BoltErr))
    (db : BoltMetaDB) : Except Panic ((α × Option MetaErr) × BoltMetaDB) := do
  let ((a, err), tx) ← fn.run ⟨db, faults⟩
  match err with
  | some e => return ((a, some e), db)
  | none =>
    match (← Tx.fault.run' tx) with
    | some e => return ((a, some (.bolt e)), db)
    | none => return ((a, none), tx.db)

/-- `db.View(fn)`. -/
def view {α : Type} (fn : TxM α) (db : BoltMetaDB) : Except Panic α := fn.run' ⟨db, []⟩

/-- `c.Shards[i] = s` with an `int` index. -/
def setIndexInt {α : Type} (s : List α) (i : Int) (a : α) : Except Panic (List α) :=
  if 0 ≤ i ∧ i.toNat < s.length then .ok (s.set i.toNat a) else .error .indexOutOfRange

namespace BoltMetaDB

/-- `NewBoltMetaDB` on a new file. -/
def new : BoltMetaDB := ⟨fun _ => Bucket.empty⟩

variable (faults : List (Option BoltErr)) (db : BoltMetaDB)

/-- `addShard(tx, s)`. -/
def addShardTx (s : DBShard) : TxM (UInt64 × Option MetaErr) := do
  let (id, err) ← Tx.nextSequence .shards
  if err.isSome then return (0, err)
  let err ← Tx.put .shards (le64 id) (encShard s)
  if err.isSome then return (0, err)
  return (id, none)

/-- `AddShard`. -/
def addShard (s : DBShard) : Except Panic ((UInt64 × Option MetaErr) × BoltMetaDB) :=
  update (addShardTx s) faults db

/-- `Shard`: a missing record is `nil`, which fails to decode. -/
def shard (id : UInt64) : Except Panic (DBShard × Option MetaErr) :=
  view (do return unmarshal decShard ((← Tx.get .shards (le64 id)).getD [])) db

/-- `addChunk(tx, m, length, shards)`. -/
def addChunkTx (m : Int) (length : UInt64) (shards : List UInt64) :
    TxM (DBChunk × Option MetaErr) := do
  let (id, err) ← Tx.nextSequence .chunks
  if err.isSome then return (default, err)
  let c : DBChunk := ⟨id, shards, uint8 m, length⟩
  let err ← Tx.put .chunks (le64 id) (encChunk c)
  if err.isSome then return (default, err)
  return (c, none)

/-- `AddChunk`: `make([]uint64, n)` is evaluated in the closure, so a negative `n` panics there. -/
def addChunk (m n : Int) (length : UInt64) : Except Panic ((DBChunk × Option MetaErr) × BoltMetaDB) :=
  update (do addChunkTx m length (← makeSlice n)) faults db

/-- The closure of `SetChunkShard`. -/
def setChunkShardTx (id : UInt64) (i : Int) (s : UInt64) : TxM (Unit × Option MetaErr) := do
  let key := le64 id
  let (c, err) := unmarshal decChunk ((← Tx.get .chunks key).getD [])
  if err.isSome then return ((), err)
  let shards ← setIndexInt c.shards i s
  return ((), ← Tx.put .chunks key (encChunk { c with shards }))

/-- `SetChunkShard`. -/
def setChunkShard (id : UInt64) (i : Int) (s : UInt64) :
    Except Panic ((Unit × Option MetaErr) × BoltMetaDB) :=
  update (setChunkShardTx id i s) faults db

/-- The loop of `AddChunkAndShards`: the ids of the shards it added, or `none` when an `addShard`
failed, on which the closure returns nil. -/
def addShardsTx : List DBShard → TxM (Option (List UInt64))
  | [] => return some []
  | s :: ss => do
    let (id, err) ← addShardTx s
    if err.isSome then return none
    return (← addShardsTx ss).map (id :: ·)

/-- The closure of `AddChunkAndShards`. After a failed `addShard` it returns nil, leaving `c` the
zero `DBChunk`: the shards added before the failure are committed. -/
def addChunkAndShardsTx (m : Int) (length : UInt64) (ss : List DBShard) :
    TxM (DBChunk × Option MetaErr) := do
  match ← addShardsTx ss with
  | none => return (default, none)
  | some shards => addChunkTx m length shards

/-- `AddChunkAndShards`. -/
def addChunkAndShards (m : Int) (length : UInt64) (ss : List DBShard) :
    Except Panic ((DBChunk × Option MetaErr) × BoltMetaDB) :=
  update (addChunkAndShardsTx m length ss) faults db

/-- `Chunk`. -/
def chunk (id : UInt64) : Except Panic (DBChunk × Option MetaErr) :=
  view (do return unmarshal decChunk ((← Tx.get .chunks (le64 id)).getD [])) db

/-- `AddBlob`: the chunks and seed, under the blob's key. -/
def addBlob (b : DBBlob) : Except Panic ((Unit × Option MetaErr) × BoltMetaDB) :=
  update (do return ((), ← Tx.put .blobs b.key (encBlob b))) faults db

/-- `Blob`: a missing or empty value is not found; the key is set on every return. -/
def blob (key : Bytes) : Except Panic (DBBlob × Option MetaErr) := do
  let (b, err) ← view (do
    let blobBytes := (← Tx.get .blobs key).getD []
    if blobBytes.length = 0 then return (default, some .keyNotFound)
    return unmarshal (decBlob []) blobBytes) db
  return ({ b with key }, err)

/-- `DeleteBlob`. -/
def deleteBlob (key : Bytes) : Except Panic ((Unit × Option MetaErr) × BoltMetaDB) :=
  update (do return ((), ← Tx.delete .blobs key)) faults db

/-- `ForEachBlob`. -/
def forEachBlob (fn : Bytes → Option Nat) : Except Panic (List Bytes × Option MetaErr) :=
  view (Tx.forEach .blobs fn) db

/-- `UnreferencedSectors`: `nil, nil`. -/
def unreferencedSectors : GoMap HostPublicKey (List Hash) × Option MetaErr := (∅, none)

/-- `AddMetadata`. -/
def addMetadata (key val : Bytes) : Except Panic ((Unit × Option MetaErr) × BoltMetaDB) :=
  update (do return ((), ← Tx.put .meta key val)) faults db

/-- `Metadata`: `append` of no bytes leaves `val` nil, so a missing or empty value is not found. -/
def metadata (key : Bytes) : Except Panic (Bytes × Option MetaErr) := do
  let val ← view (do return (← Tx.get .meta key).getD []) db
  return (val, if val = [] then some .keyNotFound else none)

/-- One call, its transactions meeting `faults`: what it returns, and the database after it. -/
def apply : Call → Except Panic ((Ret × Option MetaErr) × BoltMetaDB)
  | .addBlob b => do let ((_, err), db') ← db.addBlob faults b; pure ((.unit, err), db')
  | .blob key => do let (b, err) ← db.blob key; pure ((.blob b, err), db)
  | .deleteBlob key => do let ((_, err), db') ← db.deleteBlob faults key; pure ((.unit, err), db')
  | .forEachBlob fn => do let (ks, err) ← db.forEachBlob fn; pure ((.visited ks, err), db)
  | .addChunk m n length => do
    let ((c, err), db') ← db.addChunk faults m n length
    pure ((.chunk c, err), db')
  | .chunk id => do let (c, err) ← db.chunk id; pure ((.chunk c, err), db)
  | .setChunkShard id i s => do
    let ((_, err), db') ← db.setChunkShard faults id i s
    pure ((.unit, err), db')
  | .addShard s => do let ((id, err), db') ← db.addShard faults s; pure ((.id id, err), db')
  | .shard id => do let (s, err) ← db.shard id; pure ((.shard s, err), db)
  | .addChunkAndShards m length ss => do
    let ((c, err), db') ← db.addChunkAndShards faults m length ss
    pure ((.chunk c, err), db')
  | .unreferencedSectors => .ok ((.sectors unreferencedSectors.1, unreferencedSectors.2), db)
  | .addMetadata key val => do
    let ((_, err), db') ← db.addMetadata faults key val
    pure ((.unit, err), db')
  | .metadata key => do let (v, err) ← db.metadata key; pure ((.bytes v, err), db)

/-- A sequence of calls on a file that never fails: what each returns, and the final database. -/
def run : BoltMetaDB → List Call → Except Panic (List (Ret × Option MetaErr) × BoltMetaDB)
  | db, [] => .ok ([], db)
  | db, c :: cs => do
    let r ← db.apply [] c
    let rs ← run r.2 cs
    pure (r.1 :: rs.1, rs.2)

end BoltMetaDB

namespace BoltMetaDB

variable (db : BoltMetaDB)

/-! ## On a file that never fails -/

theorem update_nil {α : Type} {fn : TxM (α × Option MetaErr)} {a : α} {db' : BoltMetaDB}
    (h : fn.run ⟨db, []⟩ = .ok ((a, none), ⟨db', []⟩)) : update fn [] db = .ok ((a, none), db') := by
  rw [update, h]; rfl

theorem addShardTx_nil {s : DBShard} (hv : (encShard s).length ≤ MaxValueSize) :
    (addShardTx s).run ⟨db, []⟩ = .ok (((db.bucket .shards).seq + 1, none),
      ⟨db.setBucket .shards ((db.bucket .shards).push (encShard s)), []⟩) := by
  simp [addShardTx, Bucket.put_le64 hv, Bucket.push]

theorem addShard_nil {s : DBShard} (hv : (encShard s).length ≤ MaxValueSize) :
    db.addShard [] s = .ok (((db.bucket .shards).seq + 1, none),
      db.setBucket .shards ((db.bucket .shards).push (encShard s))) :=
  update_nil db (addShardTx_nil db hv)

theorem addChunkTx_nil {m : Int} {length : UInt64} {shards : List UInt64}
    (hv : 8 * shards.length + 32 ≤ MaxValueSize) :
    (addChunkTx m length shards).run ⟨db, []⟩ =
      .ok ((⟨(db.bucket .chunks).seq + 1, shards, uint8 m, length⟩, none),
        ⟨db.setBucket .chunks ((db.bucket .chunks).push
          (encChunk ⟨(db.bucket .chunks).seq + 1, shards, uint8 m, length⟩)), []⟩) := by
  have hv' : (encChunk ⟨(db.bucket .chunks).seq + 1, shards, uint8 m, length⟩).length ≤
      MaxValueSize := by rw [length_encChunk]; exact hv
  simp [addChunkTx, Bucket.put_le64 hv', Bucket.push]

theorem addChunk_neg (faults : List (Option BoltErr)) {m n : Int} {length : UInt64} (hn : n < 0) :
    db.addChunk faults m n length = .error .makeSliceLen := by
  simp [addChunk, update, makeSlice, hn]

theorem addChunk_nil {m n : Int} {length : UInt64} (hn : 0 ≤ n) (hv : 8 * n.toNat + 32 ≤ MaxValueSize) :
    db.addChunk [] m n length =
      .ok ((⟨(db.bucket .chunks).seq + 1, List.replicate n.toNat 0, uint8 m, length⟩, none),
        db.setBucket .chunks ((db.bucket .chunks).push
          (encChunk ⟨(db.bucket .chunks).seq + 1, List.replicate n.toNat 0, uint8 m, length⟩))) := by
  have hv' : 8 * (List.replicate n.toNat (0 : UInt64)).length + 32 ≤ MaxValueSize := by simpa using hv
  refine update_nil db ?_
  simp [makeSlice, Int.not_lt.2 hn, addChunkTx_nil db hv']

theorem length_setIndexInt {α : Type} {s s' : List α} {i : Int} {a : α}
    (h : setIndexInt s i a = .ok s') : s'.length = s.length := by
  unfold setIndexInt at h
  split_ifs at h
  cases h; simp

/-- The closure of `SetChunkShard` on a transaction whose chunk record decodes to `c`. -/
theorem run_setChunkShardTx {id : UInt64} {i : Int} {s : UInt64} {c : DBChunk} (tx : Tx)
    (hu : unmarshal decChunk (((tx.db.bucket .chunks).kv.lookup (le64 id)).getD []) = (c, none)) :
    (setChunkShardTx id i s).run tx = (do
      let shards ← liftM (setIndexInt c.shards i s)
      return ((), ← Tx.put .chunks (le64 id) (encChunk { c with shards }))).run tx := by
  rw [setChunkShardTx, StateT.run_bind, Tx.run_get, ok_bind]
  simp only [hu]
  rfl

theorem setChunkShard_nil {id : UInt64} {i : Int} {s : UInt64} {c : DBChunk}
    (hc : (db.bucket .chunks).kv.lookup (le64 id) = some (encChunk c))
    (hv : (encChunk c).length ≤ MaxValueSize) :
    db.setChunkShard [] id i s = (setIndexInt c.shards i s).map fun shards =>
      (((), none), db.setBucket .chunks { db.bucket .chunks with
        kv := (db.bucket .chunks).kv.insert (le64 id) (encChunk { c with shards }) }) := by
  have hu : unmarshal decChunk (((db.bucket .chunks).kv.lookup (le64 id)).getD []) = (c, none) := by
    rw [hc, Option.getD_some]; exact unmarshal_encChunk (by simp [MaxValueSize] at hv; omega)
  cases hs : setIndexInt c.shards i s with
  | error p =>
    rw [setChunkShard, update, run_setChunkShardTx ⟨db, []⟩ hu, StateT.run_bind, hs,
      run_liftM_error]
    rfl
  | ok shards =>
    have hv' : (encChunk { c with shards }).length ≤ MaxValueSize := by
      simpa [length_setIndexInt hs] using hv
    refine update_nil db ?_
    rw [run_setChunkShardTx ⟨db, []⟩ hu, StateT.run_bind, hs, run_liftM_ok, ok_bind,
      StateT.run_bind, Tx.run_put_nil, Bucket.put_le64 hv']
    rfl

theorem addShardsTx_cons_nil {s : DBShard} {ss : List DBShard} (hv : (encShard s).length ≤ MaxValueSize) :
    (addShardsTx (s :: ss)).run ⟨db, []⟩ =
      ((addShardsTx ss).run ⟨db.setBucket .shards ((db.bucket .shards).push (encShard s)), []⟩).map
        fun r => (r.1.map (((db.bucket .shards).seq + 1) :: ·), r.2) := by
  simp only [addShardsTx, StateT.run_bind, addShardTx_nil db hv, ok_bind, Option.isSome_none,
    Bool.false_eq_true, if_false, StateT.run_pure, pure_bind]
  cases (addShardsTx ss).run ⟨db.setBucket .shards ((db.bucket .shards).push (encShard s)), []⟩ <;> rfl

theorem addChunkAndShards_nil {m : Int} {length : UInt64} {ss : List DBShard} {ids : List UInt64}
    {db' : BoltMetaDB} (h : (addShardsTx ss).run ⟨db, []⟩ = .ok (some ids, ⟨db', []⟩))
    (hv : 8 * ids.length + 32 ≤ MaxValueSize) :
    db.addChunkAndShards [] m length ss =
      .ok ((⟨(db'.bucket .chunks).seq + 1, ids, uint8 m, length⟩, none),
        db'.setBucket .chunks ((db'.bucket .chunks).push
          (encChunk ⟨(db'.bucket .chunks).seq + 1, ids, uint8 m, length⟩))) := by
  refine update_nil db ?_
  simp [addChunkAndShardsTx, h, addChunkTx_nil db' hv]

theorem addBlob_nil {b : DBBlob} (hk : b.key ≠ []) (hks : b.key.length ≤ MaxKeySize)
    (hv : (encBlob b).length ≤ MaxValueSize) :
    db.addBlob [] b = .ok (((), none), db.setBucket .blobs
      { db.bucket .blobs with kv := (db.bucket .blobs).kv.insert b.key (encBlob b) }) :=
  update_nil db (by simp [Bucket.put_ok hk hks hv])

theorem deleteBlob_nil (key : Bytes) :
    db.deleteBlob [] key = .ok (((), none), db.setBucket .blobs
      { db.bucket .blobs with kv := (db.bucket .blobs).kv.erase key }) :=
  update_nil db (by simp)

theorem addMetadata_nil {key val : Bytes} (hk : key ≠ []) (hks : key.length ≤ MaxKeySize)
    (hv : val.length ≤ MaxValueSize) :
    db.addMetadata [] key val = .ok (((), none), db.setBucket .meta
      { db.bucket .meta with kv := (db.bucket .meta).kv.insert key val }) :=
  update_nil db (by simp [Bucket.put_ok hk hks hv])

/-! The reads, which run on a read-only transaction: -/

theorem shard_eq (id : UInt64) :
    db.shard id = .ok (unmarshal decShard (((db.bucket .shards).kv.lookup (le64 id)).getD [])) := rfl

theorem chunk_eq (id : UInt64) :
    db.chunk id = .ok (unmarshal decChunk (((db.bucket .chunks).kv.lookup (le64 id)).getD [])) := rfl

theorem blob_eq (key : Bytes) : db.blob key =
    .ok (let blobBytes := ((db.bucket .blobs).kv.lookup key).getD []
      let r : DBBlob × Option MetaErr := if blobBytes.length = 0 then (default, some .keyNotFound)
        else unmarshal (decBlob []) blobBytes
      ({ r.1 with key }, r.2)) := by
  simp only [blob, view, StateT.run'_eq, StateT.run_bind, Tx.run_get, ok_bind]
  split <;> rfl

theorem forEachBlob_eq (fn : Bytes → Option Nat) :
    db.forEachBlob fn = .ok (visit fn (sortStrings (db.bucket .blobs).kv.keys)) := rfl

theorem metadata_eq (key : Bytes) : db.metadata key =
    .ok (((db.bucket .meta).kv.lookup key).getD [],
      if ((db.bucket .meta).kv.lookup key).getD [] = [] then some .keyNotFound else none) := rfl

end BoltMetaDB
end Us.Store
