import Us.Wallet.Address
import Mathlib.Data.List.Dedup
import Mathlib.Data.Multiset.Basic

/-!
# `CalculateLimboOutputs`

The outputs a wallet would control once the transactions in limbo (broadcast, not yet in a
block) were applied. The first loop appends every owned output the limbo transactions create;
the second, for every owned input, cuts out the first output whose ID is the input's parent ID.

* `CalculateLimboOutputs_eq_foldl`: the two loops are the created outputs appended, then one
  `deleteOutput` per spent parent ID. The code never panics.
* `count_foldl_deleteOutput`, the run lemma: where every output with `o`'s ID is `o`, the
  deletions take `o` away once per spend of its ID, down to none.
* `CalculateLimboOutputs_sublist`: whatever the IDs, the result is part of `outputs` and the
  created outputs, in their order.
* `CalculateLimboOutputs_multiset`: where outputs with the same ID are equal, the result is, as
  a multiset, the outputs and the created outputs less, for every ID, as many of those with that
  ID as there are spends of it, and so the same in every order of the limbo transactions.
-/

set_option autoImplicit false

namespace Us.Wallet

/-- `types.SiacoinOutput`; a `Currency` is a natural number. -/
structure SiacoinOutput where
  value : Nat
  unlockHash : Hash
deriving DecidableEq, Repr

/-- `UnspentOutput`: a `SiacoinOutput` along with its ID. -/
structure UnspentOutput extends SiacoinOutput where
  id : Hash
deriving DecidableEq, Repr

/-- `types.SiacoinInput`. -/
structure SiacoinInput where
  parentID : Hash
  unlockConditions : UnlockConditions
deriving DecidableEq, Repr

/-- `types.Transaction`: its siacoin inputs and outputs, and the encoding of the fields only the
IDs of its outputs depend on. -/
structure Transaction where
  siacoinInputs : List SiacoinInput
  siacoinOutputs : List SiacoinOutput
  otherFields : Bytes
deriving DecidableEq, Repr

/-- `LimboTransaction`; its `LimboSince` is not read here. -/
structure LimboTransaction extends Transaction
deriving DecidableEq, Repr

section limbo

variable (blake2b : Bytes → Hash) (owner : Hash → Bool)
  (SiacoinOutputID : Transaction → UInt64 → Hash)

/-! ## The code -/

/-- The first loop's body for one transaction: its outputs the owner owns, appended with their
IDs `txn.SiacoinOutputID(uint64(i))`. -/
def addCreated (newOutputs : List UnspentOutput) (txn : LimboTransaction) : List UnspentOutput :=
  txn.siacoinOutputs.enum.foldl (fun acc (i, o) =>
    if owner o.unlockHash then acc ++ [{ o with id := SiacoinOutputID txn.toTransaction (UInt64.ofNat i) }]
    else acc) newOutputs

/-- The innermost loop: the first output whose ID is `parentID` is cut out,
`append(newOutputs[:j], newOutputs[j+1:]...)`, and the loop stops. -/
def deleteOutput (newOutputs : List UnspentOutput) (parentID : Hash) : List UnspentOutput :=
  match newOutputs.findIdx? (·.id == parentID) with
  | some j => newOutputs.take j ++ newOutputs.drop (j + 1)
  | none => newOutputs

/-- The second loop's body for one transaction: for every input whose unlock hash the owner owns,
`deleteOutput`. -/
def removeSpent (newOutputs : List UnspentOutput) (txn : LimboTransaction) :
    Except Panic (List UnspentOutput) :=
  txn.siacoinInputs.foldlM (fun acc o => do
    let h ← CalculateUnlockHash blake2b o.unlockConditions
    return if owner h then deleteOutput acc o.parentID else acc) newOutputs

/-- `CalculateLimboOutputs(owner, limbo, outputs)`. -/
def CalculateLimboOutputs (limbo : List LimboTransaction) (outputs : List UnspentOutput) :
    Except Panic (List UnspentOutput) :=
  limbo.foldlM (removeSpent blake2b owner) (limbo.foldl (addCreated owner SiacoinOutputID) outputs)

/-! ## What the loops add and take away -/

/-- The owned outputs one transaction creates, with their IDs. -/
def txnCreated (txn : LimboTransaction) : List UnspentOutput :=
  (txn.siacoinOutputs.enum.filter fun p => owner p.2.unlockHash).map fun p =>
    { p.2 with id := SiacoinOutputID txn.toTransaction (UInt64.ofNat p.1) }

/-- Every output `o` at index `i` of a limbo transaction with `owner.OwnsAddress(o.UnlockHash)`. -/
def limboCreated (limbo : List LimboTransaction) : List UnspentOutput :=
  limbo.flatMap (txnCreated owner SiacoinOutputID)

/-- Whether the owner owns the address of `CalculateUnlockHash(i.UnlockConditions)`. -/
def ownsInput (i : SiacoinInput) : Bool :=
  match CalculateUnlockHash blake2b i.unlockConditions with
  | .ok h => owner h
  | .error _ => false

/-- The parent IDs of one transaction's owned inputs. -/
def txnSpent (txn : LimboTransaction) : List Hash :=
  (txn.siacoinInputs.filter (ownsInput blake2b owner)).map (·.parentID)

/-- The parent IDs of the owned inputs of every limbo transaction. -/
def limboSpent (limbo : List LimboTransaction) : List Hash :=
  limbo.flatMap (txnSpent blake2b owner)

/-- For every ID `X` of `N`, `min` of the number of elements of `N` with ID `X` and the number of
spends of `X`, of those elements. -/
def limboRemoved (N : List UnspentOutput) (spent : List Hash) : List UnspentOutput :=
  (N.map (·.id)).dedup.flatMap fun X =>
    (N.filter (·.id = X)).take (min (N.countP (·.id = X)) (spent.count X))

/-- The outputs the owner would control: `outputs` and the created outputs, less the removed. -/
def limboOutputs (limbo : List LimboTransaction) (outputs : List UnspentOutput) :
    Multiset UnspentOutput :=
  (↑(outputs ++ limboCreated owner SiacoinOutputID limbo) : Multiset UnspentOutput) -
    ↑(limboRemoved (outputs ++ limboCreated owner SiacoinOutputID limbo) (limboSpent blake2b owner limbo))

/-! ## The loops -/

theorem addCreated_eq (acc : List UnspentOutput) (txn : LimboTransaction) :
    addCreated owner SiacoinOutputID acc txn = acc ++ txnCreated owner SiacoinOutputID txn := by
  unfold addCreated txnCreated
  generalize txn.siacoinOutputs.enum = ps
  induction ps generalizing acc with
  | nil => simp
  | cons p ps ih =>
    obtain ⟨i, o⟩ := p
    rw [List.foldl_cons, ih, List.filter_cons]
    by_cases h : owner o.unlockHash <;> simp [h]

theorem foldl_addCreated (limbo : List LimboTransaction) (acc : List UnspentOutput) :
    limbo.foldl (addCreated owner SiacoinOutputID) acc = acc ++ limboCreated owner SiacoinOutputID limbo := by
  induction limbo generalizing acc with
  | nil => simp [limboCreated]
  | cons txn limbo ih => simp [ih, addCreated_eq, limboCreated]

theorem removeSpent_eq (acc : List UnspentOutput) (txn : LimboTransaction) :
    removeSpent blake2b owner acc txn = .ok ((txnSpent blake2b owner txn).foldl deleteOutput acc) := by
  unfold removeSpent txnSpent
  induction txn.siacoinInputs generalizing acc with
  | nil => rfl
  | cons i is ih =>
    obtain ⟨h, hh⟩ := CalculateUnlockHash_ok blake2b i.unlockConditions
    have hown : ownsInput blake2b owner i = owner h := by rw [ownsInput, hh]
    rw [List.foldlM_cons, hh, ok_bind, pure_bind, List.filter_cons, hown]
    cases owner h <;> exact ih _

theorem CalculateLimboOutputs_eq_foldl (limbo : List LimboTransaction) (outputs : List UnspentOutput) :
    CalculateLimboOutputs blake2b owner SiacoinOutputID limbo outputs =
      .ok ((limboSpent blake2b owner limbo).foldl deleteOutput
        (outputs ++ limboCreated owner SiacoinOutputID limbo)) := by
  rw [CalculateLimboOutputs, foldl_addCreated, limboSpent]
  generalize outputs ++ limboCreated owner SiacoinOutputID limbo = acc
  induction limbo generalizing acc with
  | nil => rfl
  | cons txn limbo ih => rw [List.foldlM_cons, removeSpent_eq, ok_bind, ih, List.flatMap_cons, List.foldl_append]

end limbo

/-! ## Deleting by ID -/

/-- The loop passes over outputs of another ID and stops at the first of `parentID`. -/
theorem deleteOutput_cons (b : UnspentOutput) (t : List UnspentOutput) (parentID : Hash) :
    deleteOutput (b :: t) parentID = if b.id == parentID then t else b :: deleteOutput t parentID := by
  unfold deleteOutput
  rw [List.findIdx?_cons, List.findIdx?_succ]
  cases b.id == parentID
  · cases t.findIdx? (·.id == parentID) <;> simp
  · simp

theorem deleteOutput_eq_eraseP (parentID : Hash) : ∀ l : List UnspentOutput,
    deleteOutput l parentID = l.eraseP (·.id == parentID)
  | [] => rfl
  | b :: t => by
    rw [deleteOutput_cons, List.eraseP_cons, deleteOutput_eq_eraseP parentID t]
    cases b.id == parentID <;> rfl

theorem deleteOutput_sublist (l : List UnspentOutput) (X : Hash) : (deleteOutput l X).Sublist l := by
  rw [deleteOutput_eq_eraseP]
  exact List.eraseP_sublist l

theorem foldl_deleteOutput_sublist : ∀ (spent : List Hash) (l : List UnspentOutput),
    (spent.foldl deleteOutput l).Sublist l
  | [], _ => List.Sublist.refl _
  | X :: xs, l => (foldl_deleteOutput_sublist xs _).trans (deleteOutput_sublist l X)

/-- One deletion, where every output with `o`'s ID is `o`: one `o` fewer if `X` is its ID. -/
theorem count_deleteOutput {o : UnspentOutput} (X : Hash) : ∀ {l : List UnspentOutput},
    (∀ b ∈ l, b.id = o.id → b = o) →
      (deleteOutput l X).count o = l.count o - if X = o.id then 1 else 0
  | [], _ => by simp [deleteOutput]
  | b :: t, ho => by
    have ih := count_deleteOutput X fun c hc => ho c (List.mem_cons_of_mem b hc)
    rw [deleteOutput_eq_eraseP] at ih ⊢
    by_cases hb : b.id = X
    · rw [List.eraseP_cons_of_pos (by simpa using hb)]
      by_cases hbo : b = o
      · subst hbo; simp [hb]
      · have : X ≠ o.id := fun h => hbo (ho b (List.mem_cons_self b t) (hb.trans h))
        simp [List.count_cons, hbo, this]
    · rw [List.eraseP_cons_of_neg (by simpa using hb), List.count_cons, List.count_cons, ih]
      by_cases hbo : b = o
      · subst hbo; simp [Ne.symm hb]
      · simp [hbo]

/-- **The run lemma** of the deletions: `o` is taken away once per spend of its ID. -/
theorem count_foldl_deleteOutput {o : UnspentOutput} : ∀ (spent : List Hash) {l : List UnspentOutput},
    (∀ b ∈ l, b.id = o.id → b = o) → (spent.foldl deleteOutput l).count o = l.count o - spent.count o.id
  | [], _, _ => by simp
  | X :: xs, l, ho => by
    rw [List.foldl_cons, count_foldl_deleteOutput xs fun b hb => ho b ((deleteOutput_sublist l X).subset hb),
      count_deleteOutput X ho, List.count_cons]
    by_cases h : X = o.id <;> simp [h, Nat.sub_sub, Nat.add_comm]

/-! ## The removed outputs -/

/-- Over distinct IDs, each contributing outputs of its own ID, only `o`'s ID counts `o`. -/
theorem count_flatMap_ids {o : UnspentOutput} (g : Hash → List UnspentOutput)
    (hg : ∀ X, ∀ b ∈ g X, b.id = X) : ∀ {ids : List Hash}, ids.Nodup →
      (ids.flatMap g).count o = if o.id ∈ ids then (g o.id).count o else 0
  | [], _ => by simp
  | X :: xs, hnd => by
    rw [List.nodup_cons] at hnd
    rw [List.flatMap_cons, List.count_append, count_flatMap_ids g hg hnd.2]
    by_cases hX : X = o.id
    · subst hX; simp [hnd.1]
    · have : o ∉ g X := fun h => hX (hg X o h).symm
      simp [List.count_eq_zero_of_not_mem this, Ne.symm hX]

/-- Where every output with `o`'s ID is `o`, those of `N` are its copies of `o`. -/
theorem filter_id_eq_replicate {o : UnspentOutput} {N : List UnspentOutput}
    (ho : ∀ b ∈ N, b.id = o.id → b = o) : N.filter (·.id = o.id) = List.replicate (N.count o) o := by
  rw [List.eq_replicate_iff, ← List.countP_eq_length_filter, List.count]
  refine ⟨List.countP_congr fun b hb => ?_, fun b hb => ?_⟩
  · simpa using ⟨ho b hb, fun h => h ▸ rfl⟩
  · rw [List.mem_filter] at hb
    exact ho b hb.1 (by simpa using hb.2)

/-- `limboRemoved` holds, of an `o` of `N` whose ID only its copies have, `min` of its copies and
the spends of its ID. -/
theorem count_limboRemoved {o : UnspentOutput} {N : List UnspentOutput} (spent : List Hash)
    (hoN : o ∈ N) (ho : ∀ b ∈ N, b.id = o.id → b = o) :
    (limboRemoved N spent).count o = min (N.count o) (spent.count o.id) := by
  have hmem : o.id ∈ (N.map (·.id)).dedup := List.mem_dedup.2 (List.mem_map_of_mem _ hoN)
  rw [limboRemoved, count_flatMap_ids _ (fun X b hb => ?_) (List.nodup_dedup _), if_pos hmem,
    List.countP_eq_length_filter, filter_id_eq_replicate ho]
  · simp
  · simpa using (List.mem_filter.1 (List.mem_of_mem_take hb)).2

/-! ## The multiset -/

section limbo

variable (blake2b : Bytes → Hash) (owner : Hash → Bool)
  (SiacoinOutputID : Transaction → UInt64 → Hash)

/-- Deleting from a list whose outputs with one ID are equal: every `o` is taken away once per
spend of its ID. -/
theorem count_foldl_deleteOutput_of_ids {l : List UnspentOutput}
    (hN : ∀ a ∈ l, ∀ b ∈ l, a.id = b.id → a = b) (spent : List Hash) (o : UnspentOutput) :
    (spent.foldl deleteOutput l).count o = l.count o - spent.count o.id := by
  by_cases ho : o ∈ l
  · exact count_foldl_deleteOutput spent fun b hb h => hN b hb o ho h
  · have := (foldl_deleteOutput_sublist spent l).count_le o
    rw [List.count_eq_zero_of_not_mem ho] at this ⊢
    omega

/-- Whatever the IDs, the code invents no output: it returns, in order, part of `outputs` and the
created outputs. -/
theorem CalculateLimboOutputs_sublist (limbo : List LimboTransaction) (outputs : List UnspentOutput) :
    ∃ r, CalculateLimboOutputs blake2b owner SiacoinOutputID limbo outputs = .ok r ∧
      r.Sublist (outputs ++ limboCreated owner SiacoinOutputID limbo) :=
  ⟨_, CalculateLimboOutputs_eq_foldl _ _ _ _ _, foldl_deleteOutput_sublist _ _⟩

theorem count_limboOutputs (limbo : List LimboTransaction) (outputs : List UnspentOutput)
    (hN : ∀ a ∈ outputs ++ limboCreated owner SiacoinOutputID limbo,
      ∀ b ∈ outputs ++ limboCreated owner SiacoinOutputID limbo, a.id = b.id → a = b)
    (o : UnspentOutput) :
    (limboOutputs blake2b owner SiacoinOutputID limbo outputs).count o =
      (outputs ++ limboCreated owner SiacoinOutputID limbo).count o -
        (limboSpent blake2b owner limbo).count o.id := by
  rw [limboOutputs, Multiset.count_sub, Multiset.coe_count, Multiset.coe_count]
  by_cases ho : o ∈ outputs ++ limboCreated owner SiacoinOutputID limbo
  · rw [count_limboRemoved _ ho fun b hb h => hN b hb o ho h]
    omega
  · simp [List.count_eq_zero_of_not_mem ho]

/-- **`CalculateLimboOutputs` adds the created outputs, then deletes the spent ones.** Where
any two outputs with one ID, among `outputs` and those the limbo transactions create, are equal,
the code returns, without panicking, `limboOutputs` as a multiset; and the same multiset for
every order of the limbo transactions. -/
theorem CalculateLimboOutputs_multiset (limbo : List LimboTransaction) (outputs : List UnspentOutput)
    (hN : ∀ a ∈ outputs ++ limboCreated owner SiacoinOutputID limbo,
      ∀ b ∈ outputs ++ limboCreated owner SiacoinOutputID limbo, a.id = b.id → a = b) :
    ∃ r, CalculateLimboOutputs blake2b owner SiacoinOutputID limbo outputs = .ok r ∧
      (r : Multiset UnspentOutput) = limboOutputs blake2b owner SiacoinOutputID limbo outputs ∧
      ∀ limbo', limbo'.Perm limbo → ∃ r',
        CalculateLimboOutputs blake2b owner SiacoinOutputID limbo' outputs = .ok r' ∧
          (r' : Multiset UnspentOutput) = r := by
  refine ⟨_, CalculateLimboOutputs_eq_foldl _ _ _ _ _, Multiset.ext' fun o => ?_, fun limbo' hp =>
    ⟨_, CalculateLimboOutputs_eq_foldl _ _ _ _ _, Multiset.ext' fun o => ?_⟩⟩
  · rw [Multiset.coe_count, count_foldl_deleteOutput_of_ids hN, count_limboOutputs _ _ _ _ _ hN]
  · have hc : (outputs ++ limboCreated owner SiacoinOutputID limbo').Perm
        (outputs ++ limboCreated owner SiacoinOutputID limbo) :=
      List.Perm.append_left outputs (hp.flatMap_right _)
    have hs : (limboSpent blake2b owner limbo').Perm (limboSpent blake2b owner limbo) :=
      hp.flatMap_right _
    rw [Multiset.coe_count, Multiset.coe_count,
      count_foldl_deleteOutput_of_ids fun a ha b hb => hN a (hc.subset ha) b (hc.subset hb),
      count_foldl_deleteOutput_of_ids hN, hc.count_eq, hs.count_eq]

end limbo

/-- A hash whose bytes are all `k`. -/
def hashOf (k : UInt8) : Hash := ⟨List.replicate 32 k, List.length_replicate _ _⟩

/-- Output IDs from a transaction's first other byte and the output's index. -/
def outputIDOf (txn : Transaction) (i : UInt64) : Hash := hashOf (txn.otherFields.headD 0 + i.toUInt8)

/-- An output with ID `hashOf 2`; one limbo transaction spends it and creates `hashOf 10`, the
next spends that and creates `hashOf 20`, the last spends `hashOf 2` again. -/
def chainOutputs : List UnspentOutput := [⟨⟨5, hashOf 1⟩, hashOf 2⟩]

def chainLimbo : List LimboTransaction :=
  [⟨[⟨hashOf 2, ⟨0, [], 0⟩⟩], [⟨3, hashOf 1⟩], [10]⟩,
   ⟨[⟨hashOf 10, ⟨0, [], 0⟩⟩], [⟨2, hashOf 1⟩], [20]⟩,
   ⟨[⟨hashOf 2, ⟨0, [], 0⟩⟩], [], [30]⟩]

theorem CalculateLimboOutputs_chain :
    (∀ a ∈ chainOutputs ++ limboCreated (fun _ => true) outputIDOf chainLimbo,
      ∀ b ∈ chainOutputs ++ limboCreated (fun _ => true) outputIDOf chainLimbo, a.id = b.id → a = b) ∧
    ∃ r, CalculateLimboOutputs blake2bStandIn (fun _ => true) outputIDOf chainLimbo chainOutputs = .ok r ∧
      (r : Multiset UnspentOutput) =
        limboOutputs blake2bStandIn (fun _ => true) outputIDOf chainLimbo chainOutputs ∧
      ∀ limbo', limbo'.Perm chainLimbo → ∃ r',
        CalculateLimboOutputs blake2bStandIn (fun _ => true) outputIDOf limbo' chainOutputs = .ok r' ∧
          (r' : Multiset UnspentOutput) = r :=
  ⟨by decide, CalculateLimboOutputs_multiset _ _ _ _ _ (by decide)⟩

/-- Only the last created output is left. -/
example : CalculateLimboOutputs blake2bStandIn (fun _ => true) outputIDOf chainLimbo chainOutputs =
    .ok [⟨⟨2, hashOf 1⟩, hashOf 20⟩] :=
  rfl

end Us.Wallet
