import Us.Store.Ephemeral

/-!
# Reference counts of `EphemeralMetaDB`

`refs` is kept by two methods only: `SetChunkShard` (`refs[old]--`, `refs[new]++`) and
`DeleteBlob` (`refs[sid]--` for every slot of every chunk the deleted blob lists). `AddBlob` and
`AddChunkAndShards` leave it alone. So `refs[s]` counts the slots holding `s` filled by
`SetChunkShard`, per chunk, less those of the chunks each deleted blob lists; `UnreferencedSectors`,
its one reader, lists the sector of every shard record whose count is 0 as a sector no blob
references.

* `refs_shared_chunk`: the counts are not the live references (`liveSlots`, the slots holding `s`
  of the chunks a current blob lists or no blob passed to `AddBlob` ever listed). Two blobs share a
  chunk, and deleting one brings `refs` to zero while the other still lists it; and a blob that
  `AddBlob` replaces releases nothing, so its chunk's shard keeps its count.
* `unreferencedSectors_lists_live`: so `UnreferencedSectors` lists sectors that live chunks hold:
  the sector of the shared chunk's shard, and, on a run where each chunk is in one blob
  (`Disciplined`), a sector two shard records share, one of them still live.
* `refs_eq_liveCount`, `unreferencedSectors_sound`: what the counts are on the runs they are
  designed for (`Disciplined`: each chunk placed in one blob and released with it): `refs[s]` is
  the number of slots holding `s` of the chunks no deleted blob released (`liveCount`), never
  negative, and every sector listed belongs to a shard record `s ≠ 0` no live slot holds.
* `unreferencedSectors_unset_slot`: a slot set to a shard and back to the unset id 0 leaves the
  entry `refs[0] = 0`, and `UnreferencedSectors` then indexes `db.shards[0 - 1]`.
-/
set_option autoImplicit false

namespace Us.Store.EphemeralMetaDB

/-! ## Runs and their history -/

/-- What a run records beyond the store: the chunk ids passed to `AddBlob`, and the positions
`cid - 1` of the chunks released by `DeleteBlob`. -/
structure Ghost where
  placed : List UInt64
  dead : List Nat

/-- The history after one call. -/
def Ghost.step (g : Ghost) (db : EphemeralMetaDB) : Call → Ghost
  | .addBlob b => { g with placed := g.placed ++ b.chunks }
  | .deleteBlob key =>
    match db.blobs.lookup key with
    | some b => { g with dead := g.dead ++ b.chunks.map fun cid => (cid - 1).toNat }
    | none => g
  | _ => g

/-- The states a run from `NewEphemeralMetaDB()` reaches, with their history, when every call
satisfies `ok` in the state it is made in. A call that panics ends the run. -/
inductive Reach (ok : EphemeralMetaDB → Ghost → Call → Prop) : EphemeralMetaDB → Ghost → Prop
  | new : Reach ok new ⟨[], []⟩
  | step {db db' : EphemeralMetaDB} {g : Ghost} {c : Call} {r : Ret × Option MetaErr} :
      Reach ok db g → ok db g c → db.apply c = .ok (r, db') → Reach ok db' (g.step db c)

theorem Reach.wf {ok : EphemeralMetaDB → Ghost → Call → Prop} {db : EphemeralMetaDB} {g : Ghost}
    (h : Reach ok db g) : Wf db := by
  induction h with
  | new => exact wf_new
  | step _ _ ha ih => exact ih.apply ha

section checkRun

variable (ok : EphemeralMetaDB → Ghost → Call → Prop) [∀ db g c, Decidable (ok db g c)]

/-- A run from `db` with history `g`: the state and history it ends in, or `none` if a call fails
`ok` or panics. -/
def checkRun : EphemeralMetaDB → Ghost → List Call → Option (EphemeralMetaDB × Ghost)
  | db, g, [] => some (db, g)
  | db, g, c :: cs =>
    if ok db g c then
      match db.apply c with
      | .ok r => checkRun r.2 (g.step db c) cs
      | .error _ => none
    else none

variable {ok}

theorem Reach.of_checkRun {db : EphemeralMetaDB} {g : Ghost} {cs : List Call}
    {p : EphemeralMetaDB × Ghost} (h : Reach ok db g) (hr : checkRun ok db g cs = some p) :
    Reach ok p.1 p.2 := by
  induction cs generalizing db g with
  | nil => cases hr; exact h
  | cons c cs ih =>
    simp only [checkRun] at hr
    split_ifs at hr with hc
    split at hr
    · next r ha => exact ih (h.step hc ha) hr
    · cases hr

end checkRun

/-- The chunk ids a list of calls passes to `AddBlob`. -/
def placedChunks : List Call → List UInt64
  | [] => []
  | .addBlob b :: cs => b.chunks ++ placedChunks cs
  | _ :: cs => placedChunks cs

/-- The slots holding `s` of the live chunks, a chunk being live when a current blob lists it or
no blob passed to `AddBlob` (`placed`) ever did: the references to `s` a collection must keep. -/
def liveSlots (db : EphemeralMetaDB) (placed : List UInt64) (s : UInt64) : Nat :=
  ((db.chunks.filter fun c =>
      db.blobs.entries.any (fun b => c.id ∈ b.2.chunks) || !decide (c.id ∈ placed)).map
    fun c => c.shards.count s).sum

/-! ## Counterexamples -/

/-- A shard on host `[1]`. -/
def shard₁ : DBShard := ⟨[1], default, 0, default⟩

/-- Two blobs list chunk 1, which holds shard 1; the first is deleted. -/
def sharedChunkRun : List Call :=
  [.addShard shard₁, .addChunk 1 1 0, .setChunkShard 1 0 1,
    .addBlob ⟨[1], [1], default⟩, .addBlob ⟨[2], [1], default⟩, .deleteBlob [1]]

/-- Blob `[1]` lists chunk 1, which holds shard 1, and is then replaced by a blob listing chunk 2. -/
def overwriteRun : List Call :=
  [.addShard shard₁, .addChunk 1 1 0, .addChunk 1 1 0, .setChunkShard 1 0 1,
    .addBlob ⟨[1], [1], default⟩, .addBlob ⟨[1], [2], default⟩]

/-- After `sharedChunkRun`, `refs[1]` is 0, though blob `[2]` still lists chunk 1, whose slot holds
shard 1; after `overwriteRun`, `refs[1]` is 1, though chunk 1 is in no blob any more. -/
theorem refs_shared_chunk :
    (new.run sharedChunkRun).map
        (fun r => (r.2.refs.getD 1, liveSlots r.2 (placedChunks sharedChunkRun) 1)) = .ok (0, 1) ∧
      (new.run overwriteRun).map
        (fun r => (r.2.refs.getD 1, liveSlots r.2 (placedChunks overwriteRun) 1)) = .ok (1, 0) :=
  ⟨rfl, rfl⟩

/-- A chunk's only slot set to 0, the unset id: `refs[0]` goes to `-1` and back to `0`. -/
def unsetSlotRun : List Call := [.addChunk 1 1 0, .setChunkShard 1 0 0]

/-- After `unsetSlotRun`, `refs` maps 0 to 0, and `UnreferencedSectors` indexes `db.shards[0 - 1]`
out of range. -/
theorem unreferencedSectors_unset_slot :
    (new.run unsetSlotRun).map (fun r => r.2.refs.lookup 0) = .ok (some 0) ∧
      (new.run (unsetSlotRun ++ [.unreferencedSectors])).map (fun _ => ()) =
        .error .indexOutOfRange := ⟨rfl, rfl⟩

/-! ## Live references -/

/-- The slots holding `s` of the chunks at positions `p, p + 1, ...` not released (`dead`). -/
def liveCount (dead : List Nat) (s : UInt64) : Nat → List DBChunk → Nat
  | _, [] => 0
  | p, c :: cs => (if p ∈ dead then 0 else c.shards.count s) + liveCount dead s (p + 1) cs

section liveCount

variable {dead : List Nat} {s : UInt64}

theorem liveCount_append (p : Nat) (cs : List DBChunk) (c : DBChunk) :
    liveCount dead s p (cs ++ [c]) =
      liveCount dead s p cs + if p + cs.length ∈ dead then 0 else c.shards.count s := by
  induction cs generalizing p with
  | nil => simp [liveCount]
  | cons c' cs ih =>
    rw [List.cons_append]
    simp only [liveCount, ih, List.length_cons, ← Nat.add_assoc, Nat.add_right_comm p 1]

/-- Only the positions from `p` on matter. -/
theorem liveCount_congr {dead' : List Nat} :
    ∀ (p : Nat) (cs : List DBChunk), (∀ q, p ≤ q → (q ∈ dead ↔ q ∈ dead')) →
      liveCount dead s p cs = liveCount dead' s p cs
  | _, [], _ => rfl
  | p, _ :: cs, h => by
    simp only [liveCount, h p (Nat.le_refl p),
      liveCount_congr (p + 1) cs fun q hq => h q (Nat.le_of_succ_le hq)]

/-- Replacing the chunk at a live position changes the count by the difference of its slots. -/
theorem liveCount_set (c' : DBChunk) :
    ∀ {p j : Nat} {cs : List DBChunk} {c : DBChunk}, cs[j]? = some c → p + j ∉ dead →
      liveCount dead s p (cs.set j c') + c.shards.count s = liveCount dead s p cs + c'.shards.count s
  | _, _, [], _, h, _ => by simp at h
  | p, 0, c0 :: cs, c, h, hd => by
    obtain rfl : c0 = c := Option.some.inj (List.getElem?_cons_zero.symm.trans h)
    simp only [Nat.add_zero] at hd
    simp only [List.set_cons_zero, liveCount, hd, if_false]
    omega
  | p, j + 1, c0 :: cs, c, h, hd => by
    have := liveCount_set c' (p := p + 1) (List.getElem?_cons_succ.symm.trans h)
      (by rwa [Nat.add_right_comm, Nat.add_assoc])
    simp only [List.set_cons_succ, liveCount]
    omega

/-- Releasing the chunk at a live position `q` removes its slots from the count. -/
theorem liveCount_kill {q : Nat} (hq : q ∉ dead) :
    ∀ {p : Nat} {cs : List DBChunk} {c : DBChunk}, p ≤ q → cs[q - p]? = some c →
      liveCount (dead ++ [q]) s p cs + c.shards.count s = liveCount dead s p cs
  | _, [], _, _, h => by simp at h
  | p, c0 :: cs, c, hp, h => by
    rcases Nat.eq_or_lt_of_le hp with rfl | hlt
    · obtain rfl : c0 = c := by
        rw [Nat.sub_self, List.getElem?_cons_zero] at h; exact Option.some.inj h
      have hrest : liveCount (dead ++ [p]) s (p + 1) cs = liveCount dead s (p + 1) cs :=
        liveCount_congr (p + 1) cs fun r hr => by simp; omega
      simp only [liveCount, List.mem_append, List.mem_singleton, or_true, if_true, hq, if_false,
        hrest]
      omega
    · have hne : ¬ p = q := by omega
      have hc : cs[q - (p + 1)]? = some c := by
        rwa [show q - p = q - (p + 1) + 1 by omega, List.getElem?_cons_succ] at h
      have := liveCount_kill hq (p := p + 1) (by omega) hc
      simp only [liveCount, List.mem_append, List.mem_singleton, hne, or_false]
      omega

end liveCount

/-! ## The reference-count invariant -/

/-- A chunk id the store has returned: `1 ≤ cid ≤ len(db.chunks)`. -/
def ChunkId (db : EphemeralMetaDB) (cid : UInt64) : Prop :=
  1 ≤ cid.toNat ∧ cid.toNat ≤ db.chunks.length

instance (db : EphemeralMetaDB) (cid : UInt64) : Decidable (db.ChunkId cid) :=
  inferInstanceAs (Decidable (1 ≤ cid.toNat ∧ cid.toNat ≤ db.chunks.length))

/-- The calls the counts are designed for: `AddBlob` with chunk ids the store returned, none listed
twice or placed in an earlier blob; `SetChunkShard` only on a chunk not released; and no
`AddChunkAndShards`, whose shards `refs` never counts. -/
def Disciplined (db : EphemeralMetaDB) (g : Ghost) : Call → Prop
  | .addBlob b => (∀ cid ∈ b.chunks, db.ChunkId cid) ∧ b.chunks.Nodup ∧ ∀ cid ∈ b.chunks, cid ∉ g.placed
  | .setChunkShard id _ _ => (id - 1).toNat ∉ g.dead
  | .addChunkAndShards _ _ _ => False
  | _ => True

instance (db : EphemeralMetaDB) (g : Ghost) : (c : Call) → Decidable (Disciplined db g c)
  | .addBlob b => inferInstanceAs (Decidable ((∀ cid ∈ b.chunks, db.ChunkId cid) ∧
      b.chunks.Nodup ∧ ∀ cid ∈ b.chunks, cid ∉ g.placed))
  | .setChunkShard id _ _ => inferInstanceAs (Decidable ((id - 1).toNat ∉ g.dead))
  | .addChunkAndShards .. => isFalse id
  | .blob _ | .deleteBlob _ | .forEachBlob _ | .addChunk .. | .chunk _ | .addShard _ | .shard _
    | .unreferencedSectors | .addMetadata .. | .metadata _ => isTrue trivial

/-- A shard on host `[2]`. -/
def shard₂ : DBShard := ⟨[2], default, 0, default⟩

/-- A disciplined run: two chunks, the first holding shard 1 and the second shard 2, each placed in
a blob of its own; the first blob is deleted. -/
def releaseRun : List Call :=
  [.addShard shard₁, .addShard shard₂, .addChunk 1 1 0, .addChunk 1 1 0,
    .setChunkShard 1 0 1, .setChunkShard 2 0 2,
    .addBlob ⟨[1], [1], default⟩, .addBlob ⟨[2], [2], default⟩, .deleteBlob [1]]

/-- The state and history `releaseRun` ends in. -/
def released : EphemeralMetaDB × Ghost :=
  (checkRun Disciplined new ⟨[], []⟩ releaseRun).getD (new, ⟨[], []⟩)

theorem reach_released : Reach Disciplined released.1 released.2 :=
  Reach.of_checkRun .new (rfl : checkRun Disciplined new ⟨[], []⟩ releaseRun = some released)

/-- The invariant behind `refs_eq_liveCount`: the counts, and the facts about placed and released
chunks that keep them right. -/
structure RefInv (db : EphemeralMetaDB) (g : Ghost) : Prop where
  refs : ∀ s, s ≠ 0 → db.refs.getD s = liveCount g.dead s 0 db.chunks
  placed_id : ∀ cid ∈ g.placed, db.ChunkId cid
  placed_nodup : g.placed.Nodup
  dead_placed : ∀ q ∈ g.dead, ∃ cid ∈ g.placed, q = (cid - 1).toNat
  blob_nodup : ∀ k b, db.blobs.lookup k = some b → b.chunks.Nodup
  blob_placed : ∀ k b, db.blobs.lookup k = some b → ∀ cid ∈ b.chunks, cid ∈ g.placed
  blob_live : ∀ k b, db.blobs.lookup k = some b → ∀ cid ∈ b.chunks, (cid - 1).toNat ∉ g.dead
  blob_disjoint : ∀ k k' b b', k ≠ k' → db.blobs.lookup k = some b → db.blobs.lookup k' = some b' →
    ∀ cid ∈ b.chunks, cid ∉ b'.chunks

theorem pos_inj {a b : UInt64} (ha : 1 ≤ a.toNat) (hb : 1 ≤ b.toNat)
    (h : (a - 1).toNat = (b - 1).toNat) : a = b := by
  rw [toNat_sub_one64 ha, toNat_sub_one64 hb] at h
  exact UInt64.toNat.inj (by omega)

theorem getD_foldl_dec (t : UInt64) :
    ∀ (shards : List UInt64) (refs : GoMap UInt64 Int),
      (shards.foldl (fun r sid => r.add sid (-1)) refs).getD t = refs.getD t - shards.count t
  | [], _ => by rw [List.foldl_nil, List.count_nil, Nat.cast_zero, sub_zero]
  | sid :: shards, refs => by
    rw [List.foldl_cons, getD_foldl_dec t shards, GoMap.getD_add, List.count_cons]
    by_cases h : sid = t
    · subst h
      simp only [if_true, beq_self_eq_true]
      omega
    · simp only [Ne.symm h, if_false, beq_iff_eq, h, add_zero]

/-- The loops of `DeleteBlob` release the blob's chunks: each slot leaves the counts. -/
theorem decRefs_live {chunks : List DBChunk} :
    ∀ {cids : List UInt64} {refs refs' : GoMap UInt64 Int} {dead : List Nat},
      decRefs chunks refs cids = .ok refs' → cids.Nodup → (∀ cid ∈ cids, 1 ≤ cid.toNat) →
      (∀ cid ∈ cids, (cid - 1).toNat ∉ dead) →
      (∀ t, t ≠ 0 → refs.getD t = liveCount dead t 0 chunks) →
      ∀ t, t ≠ 0 → refs'.getD t = liveCount (dead ++ cids.map fun cid => (cid - 1).toNat) t 0 chunks
  | [], _, _, _, h, _, _, _, hr => by
    simp only [decRefs, Except.ok.injEq] at h; subst h; rwa [List.map_nil, List.append_nil]
  | cid :: cids, refs, refs', dead, h, hn, h1, hd, hr => by
    simp only [decRefs, bind_ok, index_ok] at h
    obtain ⟨c, hc, h⟩ := h
    have hq := hd cid (.head _)
    have hlive : ∀ x ∈ cids, (x - 1).toNat ∉ dead ++ [(cid - 1).toNat] := fun x hx hm => by
      rcases List.mem_append.1 hm with hm | hm
      · exact hd x (.tail _ hx) hm
      · have := pos_inj (h1 x (.tail _ hx)) (h1 cid (.head _)) (List.mem_singleton.1 hm)
        exact (List.nodup_cons.1 hn).1 (this ▸ hx)
    have hrest := decRefs_live h (List.nodup_cons.1 hn).2 (fun x hx => h1 x (.tail _ hx)) hlive
      (fun t ht => by
        have := liveCount_kill hq (s := t) (p := 0) (Nat.zero_le _) (by rwa [Nat.sub_zero])
        rw [getD_foldl_dec, hr t ht]
        omega)
    intro t ht
    rw [hrest t ht, List.map_cons, List.append_assoc, List.singleton_append]

namespace RefInv

variable {db : EphemeralMetaDB} {g : Ghost}

theorem new : RefInv EphemeralMetaDB.new ⟨[], []⟩ :=
  ⟨fun _ _ => rfl, by simp, List.nodup_nil, by simp, by simp [EphemeralMetaDB.new],
    by simp [EphemeralMetaDB.new], by simp [EphemeralMetaDB.new], by simp [EphemeralMetaDB.new]⟩

/-- A call that changes neither the chunks, the blobs nor `refs` keeps the invariant. -/
theorem of_frame (hi : RefInv db g) {db' : EphemeralMetaDB} (hc : db'.chunks = db.chunks)
    (hb : db'.blobs = db.blobs) (hr : db'.refs = db.refs) : RefInv db' g := by
  obtain ⟨_, _, _, _, _⟩ := db'
  subst hc hb hr
  exact ⟨hi.1, hi.2, hi.3, hi.4, hi.5, hi.6, hi.7, hi.8⟩

theorem addBlob (hi : RefInv db g) {b : DBBlob} (hc : Disciplined db g (.addBlob b)) :
    RefInv (db.addBlob b) (g.step db (.addBlob b)) := by
  obtain ⟨hid, hnd, hfresh⟩ := hc
  have hlook : ∀ k b', (db.addBlob b).blobs.lookup k = some b' →
      (k = b.key ∧ b' = b) ∨ (k ≠ b.key ∧ db.blobs.lookup k = some b') := by
    intro k b' h
    by_cases hk : k = b.key
    · subst hk; simp only [EphemeralMetaDB.addBlob, AList.lookup_insert, Option.some.injEq] at h
      exact .inl ⟨rfl, h.symm⟩
    · rw [EphemeralMetaDB.addBlob, AList.lookup_insert_ne hk] at h; exact .inr ⟨hk, h⟩
  -- no chunk of `b` was released: released chunks were placed, and `b`'s were not
  have hlive : ∀ cid ∈ b.chunks, (cid - 1).toNat ∉ g.dead := fun cid hcid hm => by
    obtain ⟨cid', hp, he⟩ := hi.dead_placed _ hm
    exact hfresh cid hcid (pos_inj (hid cid hcid).1 (hi.placed_id cid' hp).1 he ▸ hp)
  refine ⟨hi.refs, fun cid hm => ?_, ?_, fun q hq => ?_, fun k b' h => ?_, fun k b' h => ?_,
    fun k b' h => ?_, fun k k' b1 b2 hkk h1 h2 cid hc1 hc2 => ?_⟩
  · rcases List.mem_append.1 hm with h | h
    · exact hi.placed_id _ h
    · exact hid _ h
  · exact List.nodup_append.2 ⟨hi.placed_nodup, hnd, fun a ha ha' => hfresh a ha' ha⟩
  · obtain ⟨cid, hp, he⟩ := hi.dead_placed q hq
    exact ⟨cid, List.mem_append_left _ hp, he⟩
  · rcases hlook k b' h with ⟨-, rfl⟩ | ⟨-, h⟩
    · exact hnd
    · exact hi.blob_nodup k b' h
  · rcases hlook k b' h with ⟨-, rfl⟩ | ⟨-, h⟩
    · exact fun cid hc => List.mem_append_right _ hc
    · exact fun cid hc => List.mem_append_left _ (hi.blob_placed k b' h cid hc)
  · rcases hlook k b' h with ⟨-, rfl⟩ | ⟨-, h⟩
    · exact hlive
    · exact hi.blob_live k b' h
  · rcases hlook _ _ h1 with ⟨rfl, rfl⟩ | ⟨-, h1'⟩
    · rcases hlook _ _ h2 with ⟨rfl, -⟩ | ⟨-, h2'⟩
      · exact hkk rfl
      · exact hfresh cid hc1 (hi.blob_placed _ _ h2' cid hc2)
    · rcases hlook _ _ h2 with ⟨-, rfl⟩ | ⟨-, h2'⟩
      · exact hfresh cid hc2 (hi.blob_placed _ _ h1' cid hc1)
      · exact hi.blob_disjoint _ _ _ _ hkk h1' h2' cid hc1 hc2

theorem deleteBlob (hi : RefInv db g) {key : Bytes} {db' : EphemeralMetaDB}
    (h : db.deleteBlob key = .ok db') : RefInv db' (g.step db (.deleteBlob key)) := by
  rcases (deleteBlob_ok db).1 h with ⟨hn, rfl⟩ | ⟨b, hb, refs, hr, rfl⟩
  · simpa [Ghost.step, hn] using hi
  have hstep : g.step db (.deleteBlob key) =
      { g with dead := g.dead ++ b.chunks.map fun cid => (cid - 1).toNat } := by
    simp [Ghost.step, hb]
  rw [hstep]
  have hids : ∀ k b', db.blobs.lookup k = some b' → ∀ cid ∈ b'.chunks, db.ChunkId cid :=
    fun k b' h cid hc => hi.placed_id _ (hi.blob_placed k b' h cid hc)
  have hlook : ∀ k b', (db.blobs.erase key).lookup k = some b' →
      k ≠ key ∧ db.blobs.lookup k = some b' := by
    intro k b' h
    by_cases hk : k = key
    · subst hk; simp at h
    · rw [AList.lookup_erase_ne hk] at h; exact ⟨hk, h⟩
  refine ⟨decRefs_live hr (hi.blob_nodup _ _ hb) (fun c hc => (hids _ _ hb c hc).1)
    (hi.blob_live _ _ hb) hi.refs, hi.placed_id, hi.placed_nodup, fun q hq => ?_,
    fun k b' h => hi.blob_nodup k b' (hlook k b' h).2,
    fun k b' h => hi.blob_placed k b' (hlook k b' h).2, fun k b' h cid hc hm => ?_,
    fun k k' b1 b2 hkk h1 h2 => hi.blob_disjoint k k' b1 b2 hkk (hlook k b1 h1).2 (hlook k' b2 h2).2⟩
  · rcases List.mem_append.1 hq with hq | hq
    · exact hi.dead_placed q hq
    · obtain ⟨cid, hc, rfl⟩ := List.mem_map.1 hq
      exact ⟨cid, hi.blob_placed _ _ hb cid hc, rfl⟩
  · obtain ⟨hk, h⟩ := hlook k b' h
    rcases List.mem_append.1 hm with hm | hm
    · exact hi.blob_live k b' h cid hc hm
    · obtain ⟨cid', hc', he⟩ := List.mem_map.1 hm
      obtain rfl := pos_inj (hids _ _ hb cid' hc').1 (hids _ _ h cid hc).1 he
      exact hi.blob_disjoint key k b b' (Ne.symm hk) hb h cid' hc' hc

theorem setChunkShard (hi : RefInv db g) {id : UInt64} {i : Int} {s : UInt64}
    {db' : EphemeralMetaDB} (hd : (id - 1).toNat ∉ g.dead) (h : db.setChunkShard id i s = .ok db') :
    RefInv db' g := by
  obtain ⟨c, old, hc, -, ho, rfl⟩ := (setChunkShard_ok db).1 h
  obtain ⟨hlt, hold⟩ := List.getElem?_eq_some_iff.1 ho
  refine ⟨fun t ht => ?_, fun cid hm => ?_, hi.placed_nodup, hi.dead_placed, hi.blob_nodup,
    hi.blob_placed, hi.blob_live, hi.blob_disjoint⟩
  · have hd' : 0 + (id - 1).toNat ∉ g.dead := by rwa [Nat.zero_add]
    have hset := liveCount_set (s := t) { c with shards := c.shards.set i.toNat s } hc hd'
    have hcount := List.count_set s t c.shards i.toNat hlt
    have hpos : (if old = t then 1 else 0) ≤ c.shards.count t := by
      split_ifs with e
      · exact List.count_pos_iff.2 (e ▸ hold ▸ List.getElem_mem hlt)
      · exact Nat.zero_le _
    dsimp only at hset
    simp only [GoMap.getD_add, hi.refs t ht, hold, beq_iff_eq, @eq_comm _ t] at hcount ⊢
    split_ifs at hcount hpos ⊢ <;> omega
  · exact ⟨(hi.placed_id cid hm).1, (List.length_set ..).symm ▸ (hi.placed_id cid hm).2⟩

theorem addChunk (hi : RefInv db g) {m n : Int} {length : UInt64} {c : DBChunk}
    {db' : EphemeralMetaDB} (h : db.addChunk m n length = .ok (c, db')) : RefInv db' g := by
  obtain ⟨-, -, c', rfl, he⟩ := (addChunk_ok db).1 h
  obtain ⟨-, rfl⟩ := Prod.mk.inj he
  refine ⟨fun t ht => ?_, fun cid hm => ?_, hi.placed_nodup, hi.dead_placed, hi.blob_nodup,
    hi.blob_placed, hi.blob_live, hi.blob_disjoint⟩
  · dsimp only
    rw [liveCount_append, hi.refs t ht]
    simp [List.count_replicate, Ne.symm ht]
  · exact ⟨(hi.placed_id cid hm).1, by simp; have := (hi.placed_id cid hm).2; omega⟩

/-- **One call keeps the invariant.** -/
theorem step (hi : RefInv db g) {c : Call} {r : Ret × Option MetaErr} {db' : EphemeralMetaDB}
    (hc : Disciplined db g c) (h : db.apply c = .ok (r, db')) : RefInv db' (g.step db c) := by
  cases c with
  | addBlob b =>
    obtain ⟨-, rfl⟩ := Prod.mk.inj (Except.ok.inj h)
    exact hi.addBlob hc
  | deleteBlob key =>
    simp only [apply, bind_ok, pure_ok, Prod.mk.injEq] at h
    obtain ⟨_, hd, -, rfl⟩ := h
    exact hi.deleteBlob hd
  | setChunkShard id i s =>
    simp only [apply, bind_ok, pure_ok, Prod.mk.injEq] at h
    obtain ⟨_, hd, -, rfl⟩ := h
    exact hi.setChunkShard hc hd
  | addChunk m n length =>
    simp only [apply, bind_ok, pure_ok, Prod.mk.injEq] at h
    obtain ⟨_, hd, -, rfl⟩ := h
    exact hi.addChunk hd
  | addShard s =>
    simp only [apply, bind_ok, pure_ok, Prod.mk.injEq] at h
    obtain ⟨_, hd, -, rfl⟩ := h
    obtain ⟨-, rfl⟩ := (addShard_ok db).1 hd
    exact hi.of_frame rfl rfl rfl
  | addChunkAndShards => exact hc.elim
  | addMetadata key val =>
    obtain ⟨-, rfl⟩ := Prod.mk.inj (Except.ok.inj h)
    exact hi.of_frame rfl rfl rfl
  | blob | forEachBlob | metadata =>
    obtain ⟨-, rfl⟩ := Prod.mk.inj (Except.ok.inj h)
    exact hi
  | chunk | shard | unreferencedSectors =>
    simp only [apply, bind_ok, pure_ok, Prod.mk.injEq] at h
    obtain ⟨_, -, -, rfl⟩ := h
    exact hi

theorem reach (h : Reach Disciplined db g) : RefInv db g := by
  induction h with
  | new => exact new
  | step _ hc ha ih => exact ih.step hc ha

end RefInv

/-- **The reference counts of a disciplined run.** On every run from `NewEphemeralMetaDB()` in which
`AddBlob` lists chunk ids the store returned, no chunk twice and none placed in an earlier blob,
`SetChunkShard` only touches chunks not released, and `AddChunkAndShards` is not called, `refs[s]`
for a shard id `s ≠ 0` is the number of slots holding `s` of the chunks no deleted blob released,
and so never negative. -/
theorem refs_eq_liveCount {db : EphemeralMetaDB} {g : Ghost} (h : Reach Disciplined db g)
    (s : UInt64) (hs : s ≠ 0) :
    db.refs.getD s = liveCount g.dead s 0 db.chunks ∧ 0 ≤ db.refs.getD s := by
  rw [(RefInv.reach h).refs s hs]
  exact ⟨rfl, Int.ofNat_nonneg _⟩

/-! ## Garbage collection -/

/-- Every sector `collectUnreferenced` adds belongs to the shard of an entry `(sid, 0)`. -/
theorem collectUnreferenced_mem {shards : List DBShard} :
    ∀ {m m' : GoMap HostPublicKey (List Hash)} {es : List (Σ _ : UInt64, Int)},
      collectUnreferenced shards m es = .ok m' → ∀ hk r, r ∈ (m'.lookup hk).getD [] →
        r ∈ (m.lookup hk).getD [] ∨ ∃ e ∈ es, e.2 = 0 ∧
          ∃ sh, shards[(e.1 - 1).toNat]? = some sh ∧ sh.hostKey = hk ∧ sh.sectorRoot = r
  | _, _, [], h, hk, r, hr => by
    simp only [collectUnreferenced, Except.ok.injEq] at h; subst h; exact .inl hr
  | m, m', ⟨sid, n⟩ :: es, h, hk, r, hr => by
    unfold collectUnreferenced at h
    split_ifs at h with hn
    · simp only [bind_ok, index_ok] at h
      obtain ⟨sh, hsh, h⟩ := h
      rcases collectUnreferenced_mem h hk r hr with hr | ⟨e, he, h0, hs⟩
      · by_cases hke : hk = sh.hostKey
        · subst hke
          simp only [AList.lookup_insert, Option.getD_some, List.mem_append,
            List.mem_singleton] at hr
          rcases hr with hr | rfl
          · exact .inl hr
          · exact .inr ⟨⟨sid, n⟩, .head _, hn, sh, hsh, rfl, rfl⟩
        · rw [AList.lookup_insert_ne hke] at hr; exact .inl hr
      · exact .inr ⟨e, .tail _ he, h0, hs⟩
    · rcases collectUnreferenced_mem h hk r hr with hr | ⟨e, he, h0, hs⟩
      · exact .inl hr
      · exact .inr ⟨e, .tail _ he, h0, hs⟩

/-- **What `UnreferencedSectors` lists, on a disciplined run.** Each sector it lists under a host
is the sector of a shard record `s ≠ 0` whose count in `refs` is zero and which no slot of a chunk
not yet released holds. -/
theorem unreferencedSectors_sound {db : EphemeralMetaDB} {g : Ghost} (h : Reach Disciplined db g)
    {m : GoMap HostPublicKey (List Hash)} (hu : db.unreferencedSectors = .ok m) {hk : HostPublicKey}
    {r : Hash} (hr : r ∈ (m.lookup hk).getD []) :
    ∃ s sh, s ≠ 0 ∧ db.refs.lookup s = some 0 ∧ db.shards[(s - 1).toNat]? = some sh ∧
      sh.hostKey = hk ∧ sh.sectorRoot = r ∧ liveCount g.dead s 0 db.chunks = 0 := by
  rcases collectUnreferenced_mem hu hk r hr with hr | ⟨⟨s, n⟩, he, h0, sh, hsh, rfl, rfl⟩
  · simp at hr
  · simp only at h0 hsh
    subst h0
    have hs : s ≠ 0 := by
      rintro rfl
      have := (Reach.wf h).shards_len
      rw [toNat_zero_sub_one64] at hsh
      have := (List.getElem?_eq_some_iff.1 hsh).1
      simp only [maxInt] at *
      omega
    have hl : db.refs.lookup s = some 0 := AList.mem_lookup_iff.2 he
    have hc := (RefInv.reach h).refs s hs
    rw [GoMap.getD, hl] at hc
    exact ⟨s, sh, hs, hl, hsh, rfl, rfl, by simp at hc; omega⟩

/-- What `UnreferencedSectors` returns after `releaseRun`: the sector of shard 1, under its host. -/
def releasedSectors : GoMap HostPublicKey (List Hash) :=
  (∅ : GoMap HostPublicKey (List Hash)).insert shard₁.hostKey [shard₁.sectorRoot]

example : released.1.unreferencedSectors = .ok releasedSectors ∧
    ∃ s sh, s ≠ 0 ∧ released.1.shards[(s - 1).toNat]? = some sh ∧ sh.sectorRoot = shard₁.sectorRoot ∧
      liveCount released.2.dead s 0 released.1.chunks = 0 := by
  have hr : shard₁.sectorRoot ∈ (releasedSectors.lookup shard₁.hostKey).getD [] := by decide
  obtain ⟨s, sh, hs, -, hsh, -, hroot, hl⟩ := unreferencedSectors_sound reach_released rfl hr
  exact ⟨rfl, s, sh, hs, hsh, hroot, hl⟩

/-- Shard 1's sector, at another offset. -/
def shard₃ : DBShard := { shard₁ with offset := 1 }

/-- Shards 1 and 3 share a sector; chunks 1 and 2 hold one each, in a blob of their own; the first
blob is deleted. -/
def sharedSectorRun : List Call :=
  [.addShard shard₁, .addShard shard₃, .addChunk 1 1 0, .addChunk 1 1 0,
    .setChunkShard 1 0 1, .setChunkShard 2 0 2,
    .addBlob ⟨[1], [1], default⟩, .addBlob ⟨[2], [2], default⟩, .deleteBlob [1]]

/-- After `sharedChunkRun`, `UnreferencedSectors` lists the sector of shard 1 under its host, while
chunk 1, live in blob `[2]`, holds shard 1. After `sharedSectorRun`, a disciplined run, it lists the
same sector, while shard 2, a record of that sector, is held by chunk 2, live in blob `[2]`. -/
theorem unreferencedSectors_lists_live :
    (do
      let r ← new.run sharedChunkRun
      let m ← r.2.unreferencedSectors
      pure ((m.lookup shard₁.hostKey).getD [], r.2.chunks.map DBChunk.shards,
        liveSlots r.2 (placedChunks sharedChunkRun) 1)) =
      .ok ([shard₁.sectorRoot], [[1]], 1) ∧
    (checkRun Disciplined new ⟨[], []⟩ sharedSectorRun).isSome = true ∧
    (do
      let r ← new.run sharedSectorRun
      let m ← r.2.unreferencedSectors
      pure ((m.lookup shard₁.hostKey).getD [], r.2.shards[1]?.map fun sh : DBShard => (sh.hostKey, sh.sectorRoot),
        liveSlots r.2 (placedChunks sharedSectorRun) 2)) =
      .ok ([shard₁.sectorRoot], some (shard₁.hostKey, shard₁.sectorRoot), 1) :=
  ⟨rfl, rfl, rfl⟩

/-! ## Indexing -/

/-- A shard id the store allocated: `1 ≤ s ≤ len(db.shards)`. -/
def ShardId (db : EphemeralMetaDB) (s : UInt64) : Prop :=
  1 ≤ s.toNat ∧ s.toNat ≤ db.shards.length

/-- The calls with ids and indices the store handed out: chunk ids the store returned (also in a
blob's chunk list), slot indices in range, shard ids the store allocated, and `SetChunkShard`
storing an allocated shard id or the unset id 0. -/
def Allowed (db : EphemeralMetaDB) (_ : Ghost) : Call → Prop
  | .chunk id => db.ChunkId id
  | .setChunkShard id i s => db.ChunkId id ∧ 0 ≤ i ∧
      (∀ c, db.chunks[(id - 1).toNat]? = some c → i.toNat < c.shards.length) ∧ (s = 0 ∨ db.ShardId s)
  | .addBlob b => ∀ cid ∈ b.chunks, db.ChunkId cid
  | .shard id => db.ShardId id
  | _ => True

/-- The invariant behind the indexing results: every key of `refs` and every slot holds 0 or an
allocated shard id, and every blob lists chunk ids the store returned. -/
structure KeyInv (db : EphemeralMetaDB) : Prop where
  keys : ∀ k ∈ db.refs, k = 0 ∨ db.ShardId k
  slots : ∀ c ∈ db.chunks, ∀ s ∈ c.shards, s = 0 ∨ db.ShardId s
  blobs : ∀ k b, db.blobs.lookup k = some b → ∀ cid ∈ b.chunks, db.ChunkId cid

theorem ShardId.mono {db db' : EphemeralMetaDB} {s : UInt64} (h : db.ShardId s)
    (hl : db.shards.length ≤ db'.shards.length) : db'.ShardId s := ⟨h.1, h.2.trans hl⟩

theorem ChunkId.mono {db db' : EphemeralMetaDB} {cid : UInt64} (h : db.ChunkId cid)
    (hl : db.chunks.length ≤ db'.chunks.length) : db'.ChunkId cid := ⟨h.1, h.2.trans hl⟩

theorem keys_foldl_dec {P : UInt64 → Prop} :
    ∀ (shards : List UInt64) (refs : GoMap UInt64 Int), (∀ k ∈ refs, P k) → (∀ s ∈ shards, P s) →
      ∀ k ∈ shards.foldl (fun r sid => r.add sid (-1)) refs, P k
  | [], _, h, _ => h
  | sid :: shards, refs, h, hs => by
    rw [List.foldl_cons]
    refine keys_foldl_dec shards _ (fun k hk => ?_) (fun s hm => hs s (.tail _ hm))
    rcases (GoMap.mem_add _ _ _ _).1 hk with rfl | hk
    · exact hs _ (.head _)
    · exact h k hk

theorem keys_decRefs {P : UInt64 → Prop} {chunks : List DBChunk}
    (hc : ∀ c ∈ chunks, ∀ s ∈ c.shards, P s) :
    ∀ {cids : List UInt64} {refs refs' : GoMap UInt64 Int}, decRefs chunks refs cids = .ok refs' →
      (∀ k ∈ refs, P k) → ∀ k ∈ refs', P k
  | [], _, _, h, hr => by simp only [decRefs, Except.ok.injEq] at h; exact h ▸ hr
  | _ :: _, _, _, h, hr => by
    simp only [decRefs, bind_ok, index_ok] at h
    obtain ⟨c, hcid, h⟩ := h
    exact keys_decRefs hc h (keys_foldl_dec _ _ hr (hc c (List.getElem?_mem hcid)))

namespace KeyInv

variable {db : EphemeralMetaDB}

theorem new : KeyInv EphemeralMetaDB.new := ⟨by simp [EphemeralMetaDB.new], by simp [EphemeralMetaDB.new],
  by simp [EphemeralMetaDB.new]⟩

/-- **One allowed call keeps the invariant.** -/
theorem step (hi : KeyInv db) (hw : Wf db) {g : Ghost} {c : Call} {r : Ret × Option MetaErr}
    {db' : EphemeralMetaDB} (hc : Allowed db g c) (h : db.apply c = .ok (r, db')) : KeyInv db' := by
  cases c with
  | addShard s =>
    simp only [apply, bind_ok, pure_ok, Prod.mk.injEq] at h
    obtain ⟨_, hd, -, rfl⟩ := h
    obtain ⟨-, rfl⟩ := (addShard_ok db).1 hd
    have hl : db.shards.length ≤ (db.shards ++ [s]).length := (List.sublist_append_left _ _).length_le
    exact ⟨fun k hk => (hi.keys k hk).imp_right (·.mono hl),
      fun c hc s hs => (hi.slots c hc s hs).imp_right (·.mono hl), hi.blobs⟩
  | addChunk m n length =>
    simp only [apply, bind_ok, pure_ok, Prod.mk.injEq] at h
    obtain ⟨_, hd, -, rfl⟩ := h
    obtain ⟨-, -, c, rfl, rfl⟩ := (addChunk_ok db).1 hd
    refine ⟨hi.keys, fun c' hc' s hs => ?_, fun k b hb cid hm => (hi.blobs k b hb cid hm).mono (List.sublist_append_left _ _).length_le⟩
    rcases List.mem_append.1 hc' with hc' | hc'
    · exact hi.slots c' hc' s hs
    · obtain rfl := List.mem_singleton.1 hc'
      exact .inl (List.eq_of_mem_replicate hs)
  | addChunkAndShards m length ss =>
    simp only [apply, addChunkAndShards, bind_ok, pure_ok, append_ok, Prod.mk.injEq] at h
    obtain ⟨_, ⟨_, hs, _, ⟨hl, rfl⟩, rfl⟩, -, rfl⟩ := h
    obtain ⟨hsl, rfl⟩ := (addShards_ok db hw.shards_len).1 hs
    have hl : db.shards.length ≤ (db.shards ++ ss).length := (List.sublist_append_left _ _).length_le
    refine ⟨fun k hk => (hi.keys k hk).imp_right (·.mono hl), fun c' hc' s hs => ?_,
      fun k b hb cid hm => (hi.blobs k b hb cid hm).mono (List.sublist_append_left _ _).length_le⟩
    rcases List.mem_append.1 hc' with hc' | hc'
    · exact (hi.slots c' hc' s hs).imp_right (·.mono hl)
    · obtain rfl := List.mem_singleton.1 hc'
      obtain ⟨j, hj, rfl⟩ := List.mem_map.1 hs
      have hj' := List.mem_range.1 hj
      refine .inr ⟨?_, ?_⟩ <;> rw [toNat_ofNat64, Nat.mod_eq_of_lt (by simp [maxInt] at hsl; omega)]
      · omega
      · simp; omega
  | setChunkShard id i s =>
    simp only [apply, bind_ok, pure_ok, Prod.mk.injEq] at h
    obtain ⟨_, hd, -, rfl⟩ := h
    obtain ⟨c, old, hcid, -, ho, rfl⟩ := (setChunkShard_ok db).1 hd
    have hold := hi.slots c (List.getElem?_mem hcid) old (List.getElem?_mem ho)
    refine ⟨fun k hk => ?_, fun c' hc' t ht => ?_, fun k b hb cid hm => ?_⟩
    · rcases (GoMap.mem_add _ _ _ _).1 hk with rfl | hk
      · exact hc.2.2.2
      rcases (GoMap.mem_add _ _ _ _).1 hk with rfl | hk
      · exact hold
      · exact hi.keys k hk
    · rcases List.mem_or_eq_of_mem_set hc' with hc' | rfl
      · exact hi.slots c' hc' t ht
      · rcases List.mem_or_eq_of_mem_set ht with ht | rfl
        · exact hi.slots c (List.getElem?_mem hcid) t ht
        · exact hc.2.2.2
    · exact (hi.blobs k b hb cid hm).mono (List.length_set ..).ge
  | deleteBlob key =>
    simp only [apply, bind_ok, pure_ok, Prod.mk.injEq] at h
    obtain ⟨_, hd, -, rfl⟩ := h
    rcases (deleteBlob_ok db).1 hd with ⟨-, rfl⟩ | ⟨b, -, refs, hr, rfl⟩
    · exact hi
    refine ⟨keys_decRefs hi.slots hr hi.keys, hi.slots, fun k b' hb => ?_⟩
    by_cases hk : k = key
    · subst hk; simp at hb
    · rw [AList.lookup_erase_ne hk] at hb; exact hi.blobs k b' hb
  | addBlob b =>
    obtain ⟨-, rfl⟩ := Prod.mk.inj (Except.ok.inj h)
    refine ⟨hi.keys, hi.slots, fun k b' hb => ?_⟩
    by_cases hk : k = b.key
    · subst hk
      simp only [addBlob, AList.lookup_insert, Option.some.injEq] at hb
      exact hb ▸ hc
    · rw [addBlob, AList.lookup_insert_ne hk] at hb
      exact hi.blobs k b' hb
  | addMetadata | blob | forEachBlob | metadata =>
    obtain ⟨-, rfl⟩ := Prod.mk.inj (Except.ok.inj h)
    exact ⟨hi.keys, hi.slots, hi.blobs⟩
  | chunk | shard | unreferencedSectors =>
    simp only [apply, bind_ok, pure_ok, Prod.mk.injEq] at h
    obtain ⟨_, -, -, rfl⟩ := h
    exact hi

theorem reach {g : Ghost} (h : Reach Allowed db g) : KeyInv db := by
  induction h with
  | new => exact new
  | step hr hc ha ih => exact ih.step (Reach.wf hr) hc ha

end KeyInv

theorem collectUnreferenced_error {shards : List DBShard} :
    ∀ {m : GoMap HostPublicKey (List Hash)} {es : List (Σ _ : UInt64, Int)} {p : Panic},
      collectUnreferenced shards m es = .error p →
        ∃ e ∈ es, e.2 = 0 ∧ shards[(e.1 - 1).toNat]? = none
  | _, [], _, h => by simp [collectUnreferenced] at h
  | m, ⟨sid, n⟩ :: es, p, h => by
    unfold collectUnreferenced at h
    split_ifs at h with hn
    · rcases bind_error.1 h with h | ⟨sh, -, h⟩
      · refine ⟨⟨sid, n⟩, .head _, hn, ?_⟩
        cases hs : shards[(sid - 1).toNat]? <;> simp_all [index]
      · obtain ⟨e, he, h⟩ := collectUnreferenced_error h
        exact ⟨e, .tail _ he, h⟩
    · obtain ⟨e, he, h⟩ := collectUnreferenced_error h
      exact ⟨e, .tail _ he, h⟩

theorem collectUnreferenced_error_of {shards : List DBShard} :
    ∀ {m : GoMap HostPublicKey (List Hash)} {es : List (Σ _ : UInt64, Int)},
      (∃ e ∈ es, e.2 = 0 ∧ shards[(e.1 - 1).toNat]? = none) →
        ∃ p, collectUnreferenced shards m es = .error p
  | _, [], ⟨_, he, _⟩ => by simp at he
  | m, ⟨sid, n⟩ :: es, ⟨e, he, h0, hn⟩ => by
    unfold collectUnreferenced
    rcases List.mem_cons.1 he with rfl | he
    · simp only at h0 hn
      exact ⟨.indexOutOfRange, by simp [h0, index, hn]⟩
    · split_ifs
      · cases hs : index shards (sid - 1) with
        | error p => exact ⟨p, by simp [hs, bind, Except.bind]⟩
        | ok sh =>
          obtain ⟨p, hp⟩ := collectUnreferenced_error_of (m := m.insert sh.hostKey
            ((m.lookup sh.hostKey).getD [] ++ [sh.sectorRoot])) ⟨e, he, h0, hn⟩
          exact ⟨p, by simp [hs, hp, bind, Except.bind]⟩
      · exact collectUnreferenced_error_of ⟨e, he, h0, hn⟩

/-- **When `UnreferencedSectors` indexes out of range.** On every run whose calls use only ids and
slot indices the store handed out (`Allowed`), `UnreferencedSectors` panics exactly when `refs` holds
the entry `0 ↦ 0`, left by an unset slot that was filled and set back to 0. -/
theorem unreferencedSectors_panics_iff {db : EphemeralMetaDB} {g : Ghost} (h : Reach Allowed db g) :
    (∃ p, db.unreferencedSectors = .error p) ↔ db.refs.lookup 0 = some 0 := by
  have hw := (Reach.wf h).shards_len
  have hk := (KeyInv.reach h).keys
  constructor
  · rintro ⟨p, hp⟩
    obtain ⟨⟨s, n⟩, he, hn, hs⟩ := collectUnreferenced_error hp
    simp only at hn hs
    subst hn
    rcases hk s (AList.mem_keys.1 (List.mem_map_of_mem Sigma.fst he)) with rfl | ⟨h1, h2⟩
    · exact AList.mem_lookup_iff.2 he
    · rw [toNat_sub_one64 h1, List.getElem?_eq_none_iff] at hs
      omega
  · intro hl
    refine collectUnreferenced_error_of ⟨⟨0, 0⟩, AList.mem_lookup_iff.1 hl, rfl, ?_⟩
    rw [toNat_zero_sub_one64, List.getElem?_eq_none_iff]
    simp only [maxInt] at hw
    omega

/-- `unsetSlotRun` is a run of allowed calls; it leaves `refs[0] = 0` and chunk 1. -/
theorem reach_unsetSlot :
    ∃ db, Reach Allowed db ⟨[], []⟩ ∧ db.refs.lookup 0 = some 0 ∧ db.ChunkId 1 := by
  have h1 : Reach Allowed _ _ := Reach.step (c := .addChunk 1 1 0) .new trivial rfl
  exact ⟨_, h1.step (c := .setChunkShard 1 0 0)
    ⟨by decide, le_refl _, fun c hc => by cases hc; decide, .inl rfl⟩ rfl, rfl, by decide⟩

/-- After `unsetSlotRun`, allowed throughout, `UnreferencedSectors` panics. -/
theorem unreferencedSectors_panics_unsetSlot :
    ∃ db, Reach Allowed db ⟨[], []⟩ ∧ db.refs.lookup 0 = some 0 ∧
      ∃ p, db.unreferencedSectors = .error p := by
  obtain ⟨db, hr, h0, -⟩ := reach_unsetSlot
  exact ⟨db, hr, h0, (unreferencedSectors_panics_iff hr).2 h0⟩

theorem index_ne_error {α : Type} {s : List α} {i : UInt64} (h : i.toNat < s.length) {p : Panic} :
    index s i ≠ .error p := by
  simp [index, List.getElem?_eq_getElem h]

theorem decRefs_ne_error {chunks : List DBChunk} :
    ∀ {cids : List UInt64} {refs : GoMap UInt64 Int} {p : Panic},
      (∀ cid ∈ cids, 1 ≤ cid.toNat ∧ cid.toNat ≤ chunks.length) → decRefs chunks refs cids ≠ .error p
  | [], _, _, _ => by simp [decRefs]
  | cid :: cids, refs, p, h => by
    have hl : (cid - 1).toNat < chunks.length := by
      rw [toNat_sub_one64 (h cid (.head _)).1]; have := h cid (.head _); omega
    obtain ⟨c, hc⟩ : ∃ c, index chunks (cid - 1) = .ok c := by
      cases hi : index chunks (cid - 1) with
      | error q => exact absurd hi (index_ne_error hl)
      | ok c => exact ⟨c, rfl⟩
    simp only [decRefs, hc, bind, Except.bind]
    exact decRefs_ne_error fun x hx => h x (.tail _ hx)

theorem addShard_error {db : EphemeralMetaDB} {s : DBShard} {p : Panic}
    (h : db.addShard s = .error p) : p = .growSliceLen := by
  simp only [addShard, bind_error, pure, Except.pure, reduceCtorEq, and_false, exists_false,
    or_false] at h
  exact append_error h

theorem addShards_error {db : EphemeralMetaDB} {p : Panic} :
    ∀ {ss : List DBShard}, addShards db ss = .error p → p = .growSliceLen
  | [], h => by simp [addShards] at h
  | s :: ss, h => by
    simp only [addShards, bind_error, pure, Except.pure, reduceCtorEq, and_false, exists_false,
      or_false] at h
    rcases h with h | ⟨_, -, h⟩
    · exact addShard_error h
    · exact addShards_error h

/-- **Only `UnreferencedSectors` indexes out of range.** On every run whose calls use only ids and
slot indices the store handed out, no other such call panics with an index out of range; the panics
left to them are `make` with a negative length and `append` past `maxInt`. -/
theorem apply_ne_indexOutOfRange {db : EphemeralMetaDB} {g : Ghost} (h : Reach Allowed db g)
    {c : Call} (hc : Allowed db g c) (hne : c ≠ .unreferencedSectors) :
    db.apply c ≠ .error .indexOutOfRange := by
  intro he
  have hi := KeyInv.reach h
  cases c with
  | unreferencedSectors => exact hne rfl
  | addBlob | blob | forEachBlob | addMetadata | metadata => cases he
  | deleteBlob key =>
    simp only [apply, bind_error, deleteBlob, pure, Except.pure, reduceCtorEq, and_false,
      exists_false, or_false] at he
    split at he
    · cases he
    · rename_i b hb
      simp only [bind_error, reduceCtorEq, and_false, exists_false, or_false] at he
      exact decRefs_ne_error (fun cid hm => hi.blobs key b hb cid hm) he
  | addChunk m n length =>
    simp only [apply, bind_error, addChunk, makeSlice, pure, Except.pure, reduceCtorEq, and_false,
      exists_false, or_false] at he
    split_ifs at he
    · simp at he
    · simp only [reduceCtorEq, false_or, Except.ok.injEq, exists_eq_left'] at he
      exact absurd (append_error he) (by decide)
  | addShard s =>
    simp only [apply, bind_error, pure, Except.pure, reduceCtorEq, and_false, exists_false,
      or_false] at he
    exact absurd (addShard_error he) (by decide)
  | addChunkAndShards m length ss =>
    simp only [apply, bind_error, addChunkAndShards, pure, Except.pure, reduceCtorEq, and_false,
      exists_false, or_false] at he
    rcases he with he | ⟨_, -, he⟩
    · exact absurd (addShards_error he) (by decide)
    · exact absurd (append_error he) (by decide)
  | chunk id =>
    obtain ⟨h1, h2⟩ := hc
    have hid : id ≠ 0 := fun e => by subst e; simp at h1
    have hl : (id - 1).toNat < db.chunks.length := by rw [toNat_sub_one64 h1]; omega
    simp only [apply, bind_error, EphemeralMetaDB.chunk, hid, if_false, pure, Except.pure,
      reduceCtorEq, and_false, exists_false, or_false] at he
    exact index_ne_error hl he
  | shard id =>
    obtain ⟨h1, h2⟩ := hc
    have hl : (id - 1).toNat < db.shards.length := by rw [toNat_sub_one64 h1]; omega
    simp only [apply, bind_error, EphemeralMetaDB.shard, pure, Except.pure, reduceCtorEq,
      and_false, exists_false, or_false] at he
    exact index_ne_error hl he
  | setChunkShard id i s =>
    obtain ⟨⟨h1, h2⟩, hi0, hslot, -⟩ := hc
    have hl : (id - 1).toNat < db.chunks.length := by rw [toNat_sub_one64 h1]; omega
    simp only [apply, bind_error, setChunkShard, pure, Except.pure, reduceCtorEq, and_false,
      exists_false, or_false] at he
    rcases he with he | ⟨c, hcid, he⟩
    · exact index_ne_error hl he
    · have := hslot c (index_ok.1 hcid)
      simp [indexInt, not_lt.2 hi0, List.getElem?_eq_getElem this] at he

/-- After `unsetSlotRun`, `Chunk(1)` does not index out of range. -/
theorem apply_ne_indexOutOfRange_unsetSlot :
    ∃ db, Reach Allowed db ⟨[], []⟩ ∧ db.ChunkId 1 ∧ db.apply (.chunk 1) ≠ .error .indexOutOfRange := by
  obtain ⟨db, hr, -, h1⟩ := reach_unsetSlot
  exact ⟨db, hr, h1, apply_ne_indexOutOfRange hr h1 fun h => by cases h⟩

/-! ## `UnreferencedSectors` in any order

Go visits the entries of the map `refs` in an unspecified order; the model's loop visits them in the
order `AList` keeps. What the loop computes does not depend on it, beyond the order of each host's
list: `unreferencedSectors_anyOrder`. -/

/-- The sector the loop lists under `hk` for the entry `e` of `refs`: that of the shard record `e`
names, when its count is zero and its host is `hk`. -/
def zeroRoot (shards : List DBShard) (hk : HostPublicKey) (e : Σ _ : UInt64, Int) : Option Hash :=
  if e.2 = 0 then
    (shards[(e.1 - 1).toNat]?).bind fun s => if s.hostKey = hk then some s.sectorRoot else none
  else none

/-- The sectors the loop lists under `hk`, visiting `es` in order. -/
def zeroRoots (shards : List DBShard) (hk : HostPublicKey) (es : List (Σ _ : UInt64, Int)) :
    List Hash :=
  es.filterMap (zeroRoot shards hk)

theorem zeroRoots_cons_zero {shards : List DBShard} {hk : HostPublicKey} {sid : UInt64} {sh : DBShard}
    (hsh : shards[(sid - 1).toNat]? = some sh) (es : List (Σ _ : UInt64, Int)) :
    zeroRoots shards hk (⟨sid, 0⟩ :: es) =
      (if sh.hostKey = hk then [sh.sectorRoot] else []) ++ zeroRoots shards hk es := by
  by_cases h : sh.hostKey = hk <;> simp [zeroRoots, zeroRoot, hsh, h]

theorem zeroRoots_cons_ne {shards : List DBShard} {hk : HostPublicKey} {sid : UInt64} {n : Int}
    (hn : n ≠ 0) (es : List (Σ _ : UInt64, Int)) :
    zeroRoots shards hk (⟨sid, n⟩ :: es) = zeroRoots shards hk es := by
  simp [zeroRoots, zeroRoot, hn]

/-- The loop appends to each host's list the sectors `zeroRoots` names for it, and adds no host
without one. -/
theorem collectUnreferenced_lookup {shards : List DBShard} :
    ∀ {m m' : GoMap HostPublicKey (List Hash)} {es : List (Σ _ : UInt64, Int)},
      collectUnreferenced shards m es = .ok m' → ∀ hk,
        m'.lookup hk = if zeroRoots shards hk es = [] then m.lookup hk
          else some ((m.lookup hk).getD [] ++ zeroRoots shards hk es)
  | _, _, [], h, hk => by
    simp only [collectUnreferenced, Except.ok.injEq] at h; subst h; simp [zeroRoots]
  | m, m', ⟨sid, n⟩ :: es, h, hk => by
    unfold collectUnreferenced at h
    split_ifs at h with hn
    · subst hn
      obtain ⟨sh, hsh, h⟩ := bind_ok.1 h
      rw [collectUnreferenced_lookup h hk, zeroRoots_cons_zero (index_ok.1 hsh)]
      by_cases hke : sh.hostKey = hk
      · subst hke
        by_cases hz : zeroRoots shards sh.hostKey es = [] <;> simp [hz]
      · simp only [AList.lookup_insert_ne (Ne.symm hke), hke, if_false, List.nil_append]
    · rw [collectUnreferenced_lookup h hk, zeroRoots_cons_ne hn]

/-- **`UnreferencedSectors`, in whatever order Go visits `refs`.** For every order `es` of the
entries of `refs`, the loop panics exactly when a zero count names no shard record; otherwise it
lists under each host the sectors of the zero-count shard records of that host, one per record, and
has no entry for a host with none. Two orders give the same hosts, with the same lists up to
order. -/
theorem unreferencedSectors_anyOrder (db : EphemeralMetaDB) {es : List (Σ _ : UInt64, Int)}
    (hes : es.Perm db.refs.entries) :
    ((∃ p, collectUnreferenced db.shards ∅ es = .error p) ↔
      ∃ e ∈ db.refs.entries, e.2 = 0 ∧ db.shards[(e.1 - 1).toNat]? = none) ∧
    ∀ m, collectUnreferenced db.shards ∅ es = .ok m → ∀ hk,
      ((m.lookup hk).getD []).Perm (zeroRoots db.shards hk db.refs.entries) ∧
        (m.lookup hk = none ↔ zeroRoots db.shards hk db.refs.entries = []) := by
  have hz : ∀ hk, (zeroRoots db.shards hk es).Perm (zeroRoots db.shards hk db.refs.entries) :=
    fun hk => hes.filterMap _
  refine ⟨⟨fun ⟨_, hp⟩ => ?_, fun ⟨e, he, h0, hn⟩ => collectUnreferenced_error_of
    ⟨e, hes.mem_iff.2 he, h0, hn⟩⟩, fun m hm hk => ?_⟩
  · obtain ⟨e, he, h0, hn⟩ := collectUnreferenced_error hp
    exact ⟨e, hes.mem_iff.1 he, h0, hn⟩
  · rw [collectUnreferenced_lookup hm hk]
    by_cases he : zeroRoots db.shards hk es = []
    · simp only [he, if_true, AList.lookup_empty, Option.getD_none, true_iff]
      exact ⟨by simpa [he] using hz hk, List.Perm.eq_nil (he ▸ (hz hk).symm)⟩
    · simp only [he, if_false, AList.lookup_empty, Option.getD_none, List.nil_append, reduceCtorEq,
        false_iff]
      exact ⟨hz hk, fun h => he (List.Perm.eq_nil (h ▸ hz hk))⟩

/-- A store whose `refs` holds two zero counts, of two shard records on one host. -/
def twoZeros : EphemeralMetaDB :=
  { new with shards := [shard₁, { shard₁ with offset := 1 }],
             refs := ((∅ : GoMap UInt64 Int).insert 1 0).insert 2 0 }

/-- Visited in the order other than the model's, the zero counts of `twoZeros` list the sector of
both records under their host. -/
theorem unreferencedSectors_anyOrder_twoZeros :
    ∃ m, collectUnreferenced twoZeros.shards ∅ [⟨1, 0⟩, ⟨2, 0⟩] = .ok m ∧
      [(⟨1, 0⟩ : Σ _ : UInt64, Int), ⟨2, 0⟩] ≠ twoZeros.refs.entries ∧
      ((m.lookup shard₁.hostKey).getD []).Perm
        (zeroRoots twoZeros.shards shard₁.hostKey twoZeros.refs.entries) :=
  ⟨_, rfl, by decide, ((unreferencedSectors_anyOrder twoZeros
    (by decide : [(⟨1, 0⟩ : Σ _ : UInt64, Int), ⟨2, 0⟩].Perm twoZeros.refs.entries)).2 _ rfl _).1⟩

end Us.Store.EphemeralMetaDB
