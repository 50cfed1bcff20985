import Us.Store.Bolt

/-!
# What a failed bolt transaction leaves behind

Every method of `BoltMetaDB` that writes runs one `db.Update` transaction, and a transaction whose
closure returns an error, or whose commit fails, is rolled back (`update_error`). So a failure of
the file underneath can only show through a closure that meets it and returns nil all the same.

* `Clean`: a closure that reports every failure it meets, so that when it returns nil it has run
  as on a file that never fails (`update_clean`). `addShard`, `addChunk`, `SetChunkShard`,
  `AddBlob`, `DeleteBlob` and `AddMetadata` have such closures.
* `apply_atomic`: so every call but `AddChunkAndShards`, whatever the file's failures, either
  returns nil having done exactly what it does on a file that never fails, or returns an error
  and leaves the database as it was.
* `addChunkAndShards_orphans`: `AddChunkAndShards` is not so. Its shard loop answers a failed
  `addShard` with `return nil`: the shards added before it are committed with no chunk, and the
  method returns the zero `DBChunk` and a nil error.
-/

set_option autoImplicit false

namespace Us.Store

/-- The transaction with no failures to come. -/
def Tx.clean (tx : Tx) : Tx := ⟨tx.db, []⟩

/-- A closure that reports every failure it meets: when it returns nil, it ran as it runs on a
file that never fails. -/
def Clean {α : Type} (fn : TxM (α × Option MetaErr)) : Prop :=
  ∀ tx a tx', fn.run tx = .ok ((a, none), tx') → fn.run tx.clean = .ok ((a, none), tx'.clean)

namespace Tx

variable {tx tx' : Tx}

/-- A fallible step that did not report a failure met none. -/
theorem fallible_clean {α : Type} {fail : BoltErr → α} {op : BoltMetaDB → α × BoltMetaDB} {a : α}
    (hf : ∀ e, fail e ≠ a) (h : (fallible fail op).run tx = .ok (a, tx')) :
    (fallible fail op).run tx.clean = .ok (a, tx'.clean) := by
  rw [run_fallible] at h ⊢
  split at h
  · exact absurd (congrArg (·.1) (Except.ok.inj h)) (hf _)
  · obtain ⟨rfl, rfl⟩ := Prod.mk.inj (Except.ok.inj h)
    rfl

theorem nextSequence_clean {n : BucketName} {id : UInt64}
    (h : (nextSequence n).run tx = .ok ((id, none), tx')) :
    (nextSequence n).run tx.clean = .ok ((id, none), tx'.clean) :=
  fallible_clean (by simp) h

theorem put_clean {n : BucketName} {key value : Bytes} (h : (put n key value).run tx = .ok (none, tx')) :
    (put n key value).run tx.clean = .ok (none, tx'.clean) :=
  fallible_clean (by simp) h

theorem delete_clean {n : BucketName} {key : Bytes} (h : (delete n key).run tx = .ok (none, tx')) :
    (delete n key).run tx.clean = .ok (none, tx'.clean) :=
  fallible_clean (by simp) h

end Tx

/-! ## Transactions -/

section update

variable {α : Type} {fn : TxM (α × Option MetaErr)} {faults : List (Option BoltErr)}
  {db db' : BoltMetaDB} {a : α}

/-- **A transaction that returns an error leaves the database as it was.** -/
theorem update_error {e : MetaErr} (h : update fn faults db = .ok ((a, some e), db')) : db' = db := by
  simp only [update, bind_ok] at h
  obtain ⟨⟨⟨a', _ | e'⟩, tx⟩, -, h⟩ := h
  · simp only [StateT.run'_eq, bind_ok, map_ok] at h
    obtain ⟨_, ⟨⟨_ | _, _⟩, -, rfl⟩, h⟩ := h <;> simp at h
    exact h.2.symm
  · simp at h
    exact h.2.symm

/-- A transaction that returns nil commits what its closure left. -/
theorem update_none (h : update fn faults db = .ok ((a, none), db')) :
    ∃ tx, fn.run ⟨db, faults⟩ = .ok ((a, none), tx) ∧ db' = tx.db := by
  simp only [update, bind_ok] at h
  obtain ⟨⟨⟨a', _ | e'⟩, tx⟩, hr, h⟩ := h
  · simp only [StateT.run'_eq, bind_ok, map_ok] at h
    obtain ⟨_, ⟨⟨_ | _, _⟩, -, rfl⟩, h⟩ := h <;> simp at h
    obtain ⟨⟨rfl, -⟩, rfl⟩ := h
    exact ⟨tx, hr, rfl⟩
  · simp at h

/-- **A clean closure's nil is the nil of a file that never fails.** -/
theorem update_clean (hc : Clean fn) (h : update fn faults db = .ok ((a, none), db')) :
    update fn [] db = .ok ((a, none), db') := by
  obtain ⟨tx, hr, rfl⟩ := update_none h
  exact BoltMetaDB.update_nil db (hc _ _ _ hr)

/-- What a clean transaction can do: what it does on a file that never fails, or nothing. -/
theorem update_atomic (hc : Clean fn) {err : Option MetaErr} (h : update fn faults db = .ok ((a, err), db')) :
    (err = none ∧ update fn [] db = .ok ((a, none), db')) ∨ (err.isSome ∧ db' = db) := by
  cases err with
  | none => exact .inl ⟨rfl, update_clean hc h⟩
  | some e => exact .inr ⟨rfl, update_error h⟩

end update

/-! ## The closures -/

namespace BoltMetaDB

/-- The closures that return what one fallible step returned. -/
theorem clean_unit {m : TxM (Option MetaErr)}
    (hm : ∀ tx tx', m.run tx = .ok (none, tx') → m.run tx.clean = .ok (none, tx'.clean)) :
    Clean (do return ((), ← m)) := by
  intro tx a tx' h
  simp only [StateT.run_bind, StateT.run_pure, bind_ok, pure_ok] at h
  obtain ⟨⟨_ | e, tx1⟩, h1, h⟩ := h
  · obtain ⟨-, rfl⟩ := Prod.mk.inj h
    simp [hm _ _ h1]
  · simp at h

/-- The closures of `addShard` and `addChunk`: take the bucket's next sequence number and put the
record under it, returning the zero value on an error. -/
theorem clean_nextSequence_put {β : Type} (n : BucketName) (enc : UInt64 → Bytes) (rec : UInt64 → β)
    (zero : β) :
    Clean (do
      let (id, err) ← Tx.nextSequence n
      if err.isSome then return (zero, err)
      let err ← Tx.put n (le64 id) (enc id)
      if err.isSome then return (zero, err)
      return (rec id, none)) := by
  intro tx a tx' h
  simp only [StateT.run_bind, StateT.run_pure, bind_ok, pure_ok] at h
  obtain ⟨⟨⟨id, _ | e⟩, tx1⟩, h1, h⟩ := h
  · simp only [Option.isSome_none, Bool.false_eq_true, if_false, StateT.run_bind, StateT.run_pure,
      bind_ok, pure_ok, exists_eq_left'] at h
    obtain ⟨⟨_ | e, tx2⟩, h2, h⟩ := h
    · obtain ⟨rfl, rfl⟩ := h
      simp only [StateT.run_bind, StateT.run_pure, Tx.nextSequence_clean h1, Tx.put_clean h2,
        ok_bind, pure_bind, Option.isSome_none, Bool.false_eq_true, if_false]
      rfl
    · simp at h
  · simp at h

theorem clean_addShardTx (s : DBShard) : Clean (addShardTx s) :=
  clean_nextSequence_put .shards (fun _ => encShard s) id 0

theorem clean_addChunkTx (m : Int) (length : UInt64) (shards : List UInt64) :
    Clean (addChunkTx m length shards) :=
  clean_nextSequence_put .chunks (fun id => encChunk ⟨id, shards, uint8 m, length⟩)
    (fun id => (⟨id, shards, uint8 m, length⟩ : DBChunk)) default

theorem clean_addChunk (m n : Int) (length : UInt64) :
    Clean (do addChunkTx m length (← makeSlice n)) := by
  intro tx a tx' h
  generalize makeSlice n = x at h ⊢
  cases x with
  | error p => rw [StateT.run_bind, run_liftM_error] at h; cases h
  | ok shards =>
    rw [StateT.run_bind, run_liftM_ok, ok_bind] at h ⊢
    exact clean_addChunkTx m length shards _ _ _ h

theorem clean_setChunkShardTx (id : UInt64) (i : Int) (s : UInt64) :
    Clean (setChunkShardTx id i s) := by
  intro tx a tx' h
  rcases hu : unmarshal decChunk (((tx.db.bucket .chunks).kv.lookup (le64 id)).getD []) with ⟨c, _ | e⟩
  · rw [run_setChunkShardTx tx hu] at h
    rw [run_setChunkShardTx tx.clean hu]
    generalize setIndexInt c.shards i s = x at h ⊢
    cases x with
    | error p => rw [StateT.run_bind, run_liftM_error] at h; cases h
    | ok shards =>
      rw [StateT.run_bind, run_liftM_ok, ok_bind] at h ⊢
      exact clean_unit (fun _ _ => Tx.put_clean) _ _ _ h
  · -- a record that does not decode: the closure returns the error
    rw [setChunkShardTx, StateT.run_bind, Tx.run_get, ok_bind] at h
    simp only [hu] at h
    cases h

/-! ## Calls -/

variable (faults : List (Option BoltErr)) (db : BoltMetaDB)

/-- How `apply` reports a method that runs one transaction. -/
theorem atomic_of_update {α : Type} {fn : TxM (α × Option MetaErr)} (hc : Clean fn) (f : α → Ret)
    {r : Ret} {err : Option MetaErr} {db' : BoltMetaDB}
    (h : (do let ((a, err), db') ← update fn faults db; pure ((f a, err), db')) = .ok ((r, err), db')) :
    (err = none ∧
      (do let ((a, err), db') ← update fn [] db; pure ((f a, err), db')) = .ok ((r, none), db')) ∨
    (err.isSome ∧ db' = db) := by
  simp only [bind_ok, pure_ok] at h
  obtain ⟨⟨⟨a, err'⟩, db''⟩, hu, h⟩ := h
  obtain ⟨⟨rfl, rfl⟩, rfl⟩ := Prod.mk.inj_iff.1 h |>.imp_left Prod.mk.inj_iff.1
  rcases update_atomic hc hu with ⟨rfl, h'⟩ | h'
  · exact .inl ⟨rfl, by simp [h']⟩
  · exact .inr h'

/-- **Every call but `AddChunkAndShards` is atomic.** Whatever the failures of the file underneath,
a call either returns nil, having returned and done exactly what it does on a file that never
fails, or returns an error and leaves the database as it was. -/
theorem apply_atomic {c : Call} (hc : ∀ m length ss, c ≠ .addChunkAndShards m length ss) {r : Ret}
    {err : Option MetaErr} {db' : BoltMetaDB} (h : db.apply faults c = .ok ((r, err), db')) :
    (err = none ∧ db.apply [] c = .ok ((r, none), db')) ∨ (err.isSome ∧ db' = db) := by
  cases c with
  | addChunkAndShards m length ss => exact absurd rfl (hc m length ss)
  | addShard s => exact atomic_of_update faults db (clean_addShardTx s) _ h
  | addChunk m n length => exact atomic_of_update faults db (clean_addChunk m n length) _ h
  | setChunkShard id i s => exact atomic_of_update faults db (clean_setChunkShardTx id i s) (fun _ => .unit) h
  | addBlob b => exact atomic_of_update faults db (clean_unit fun _ _ => Tx.put_clean) (fun _ => .unit) h
  | deleteBlob key => exact atomic_of_update faults db (clean_unit fun _ _ => Tx.delete_clean) (fun _ => .unit) h
  | addMetadata key val => exact atomic_of_update faults db (clean_unit fun _ _ => Tx.put_clean) (fun _ => .unit) h
  | blob | forEachBlob | chunk | shard | unreferencedSectors | metadata =>
    cases err with
    | none => exact .inl ⟨rfl, h⟩
    | some e =>
      simp only [apply, shard_eq, chunk_eq, blob_eq, forEachBlob_eq, metadata_eq, ok_bind] at h
      exact .inr ⟨rfl, (Prod.mk.inj (Except.ok.inj h)).2.symm⟩

/-- `AddShard` on a new database whose `Put` fails returns the error, and leaves the database new. -/
theorem apply_atomic_failedPut :
    ∃ r err db', new.apply [none, some (.io 0)] (.addShard ⟨[1], default, 0, default⟩) = .ok ((r, err), db') ∧
      ((err = none ∧ new.apply [] (.addShard ⟨[1], default, 0, default⟩) = .ok ((r, none), db')) ∨
        (err.isSome ∧ db' = new)) :=
  ⟨_, _, _, rfl, apply_atomic [none, some (.io 0)] new (fun _ _ _ h => by cases h) rfl⟩

/-- Two shard records, of hosts `[1]` and `[2]`. -/
def twoShards : List DBShard := [⟨[1], default, 0, default⟩, ⟨[2], default, 0, default⟩]

/-- **`AddChunkAndShards` commits orphan shards.** On a file that never fails it stores both shards
and the chunk `1` listing them. When the `Put` of the second shard fails, the closure returns nil:
the first shard is committed, no chunk is, and the method returns the zero `DBChunk` with a nil
error. -/
theorem addChunkAndShards_orphans :
    (new.addChunkAndShards [] 1 0 twoShards).map (·.1) = .ok (⟨1, [1, 2], 1, 0⟩, none) ∧
    (new.addChunkAndShards [none, none, none, some (.io 0)] 1 0 twoShards).map
      (fun r => (r.1, (r.2.bucket .shards).kv.keys, (r.2.bucket .chunks).kv.keys)) =
      .ok ((default, none), [le64 1], []) :=
  ⟨rfl, rfl⟩

end BoltMetaDB

end Us.Store
