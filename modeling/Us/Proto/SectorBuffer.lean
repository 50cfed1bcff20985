import Us.Go

/-!
# `sectorBuffer.UnmarshalSia`

The download protocol reads a sector from the host into a buffer the `Downloader` reuses across
calls. The buffer is a Go `[]byte`: a length over a backing array of `cap` bytes (`BackingArray`),
which the length never exceeds (`SectorBuffer.len_le`); slicing past the capacity is the one panic
the parser could raise. A reply of the host is a `Stream`: the bytes it sends,
then the error every further read returns; `readFull` is `io.ReadFull` on it.

* `unmarshalSia_ok`: `UnmarshalSia` never panics, whatever the stream and the buffer it starts
  from, and leaves a buffer of capacity `SectorSize`.
* `unmarshalSia_nil`: when it returns nil, the stream began with a 24-byte header declaring
  `totalSize ≤ SectorSize + 16`, `numSectors = 1` and `payloadSize ≤ SectorSize`, and the buffer
  holds exactly the `payloadSize` bytes after it.
* `unmarshalSia_frame`: conversely every such frame is accepted, with its payload.
-/

set_option autoImplicit false

namespace Us.Proto

/-- `SectorSize`, `1 << 22` bytes. -/
def SectorSize : Nat := 4194304

/-- The errors of a read from the connection: `io.EOF`, the host closed the connection;
`io.ErrUnexpectedEOF`, `io.ReadFull` read some bytes before that; a connection reset or a broken
pipe; and a deadline passed. -/
inductive IOErr where
  | eof
  | unexpectedEOF
  | reset
  | timeout
deriving DecidableEq, Repr

/-- The errors of the download protocol: an error of the connection, `errors.New(s)`,
`errors.Wrap(e, s)`, `modules.ErrStopResponse` (the host ended the session gracefully), and any
other error of the host or of the contract editor. -/
inductive Err where
  | io (e : IOErr)
  | msg (s : String)
  | wrap (s : String) (e : Err)
  | stopResponse
  | other (n : Nat)
deriving DecidableEq, Repr

/-- What the host sends in reply to one request: `bytes`, after which every read fails with
`err`. -/
structure Stream where
  bytes : Bytes
  err : IOErr
deriving DecidableEq, Repr

/-- `io.ReadFull(r, buf)` with `len(buf) = n`: the bytes read into `buf` (all `n`, or those that came
before the stream failed), the error, and the rest of the stream. -/
def readFull (r : Stream) (n : Nat) : Bytes × Option IOErr × Stream :=
  if n ≤ r.bytes.length then (r.bytes.take n, none, ⟨r.bytes.drop n, r.err⟩)
  else (r.bytes, some (if r.err = .eof ∧ r.bytes ≠ [] then .unexpectedEOF else r.err), ⟨[], r.err⟩)

theorem length_readFull_le (r : Stream) (n : Nat) : (readFull r n).1.length ≤ n := by
  unfold readFull; split <;> simp; omega

/-! ## The buffer -/

/-- A zero-filled backing array of `cap` bytes whose first `front.length` bytes were written: every
write starts at index 0. -/
structure BackingArray (cap : Nat) where
  front : Bytes
  front_le : front.length ≤ cap

namespace BackingArray

variable {cap : Nat}

/-- The bytes of the array. -/
def toList (a : BackingArray cap) : Bytes := a.front ++ List.replicate (cap - a.front.length) 0

/-- `make([]byte, cap)`'s array. -/
def zero (cap : Nat) : BackingArray cap := ⟨[], Nat.zero_le _⟩

/-- Write `b` at the start of the array. -/
def write (a : BackingArray cap) (b : Bytes) (h : b.length ≤ cap) : BackingArray cap :=
  ⟨b ++ a.front.drop b.length, by simp; have := a.front_le; omega⟩

/-- `io.ReadFull(r, s)` into a slice `s` of the first `n` bytes of the array: the array after the
bytes read were written, the error, and the rest of the stream. -/
def readFull (a : BackingArray cap) (n : Nat) (h : n ≤ cap) (r : Stream) :
    BackingArray cap × Option IOErr × Stream :=
  let x := Proto.readFull r n
  (a.write x.1 ((length_readFull_le r n).trans h), x.2)

@[simp] theorem length_toList (a : BackingArray cap) : a.toList.length = cap := by
  have := a.front_le; simp [toList]; omega

theorem take_toList_write (a : BackingArray cap) (b : Bytes) (h : b.length ≤ cap) :
    (a.write b h).toList.take b.length = b := by
  simp [toList, write, List.take_append_eq_append_take]

theorem readFull_none {a : BackingArray cap} {n : Nat} {h : n ≤ cap}
    {r : Stream} (hr : (a.readFull n h r).2.1 = none) :
    n ≤ r.bytes.length ∧ (a.readFull n h r).1.toList.take n = r.bytes.take n ∧
      (a.readFull n h r).2.2 = ⟨r.bytes.drop n, r.err⟩ := by
  simp only [readFull, Proto.readFull] at hr ⊢
  split at hr
  · next hn =>
    simp only [hn, if_true, and_true, true_and]
    simpa [List.length_take, Nat.min_eq_left hn] using take_toList_write a (r.bytes.take n) _
  · simp at hr

/-- With `n` bytes to come, `io.ReadFull` reads them into the array. -/
theorem readFull_of_le (a : BackingArray cap) {n : Nat} (h : n ≤ cap) {r : Stream}
    (hn : n ≤ r.bytes.length) : ∃ a', a.readFull n h r = (a', none, ⟨r.bytes.drop n, r.err⟩) ∧
      a'.toList.take n = r.bytes.take n := by
  have hw : (r.bytes.take n).length ≤ cap := by simp only [List.length_take]; omega
  refine ⟨a.write (r.bytes.take n) hw, by simp [readFull, Proto.readFull, hn], ?_⟩
  simpa [Nat.min_eq_left hn] using take_toList_write a (r.bytes.take n) hw

theorem readFull_eq_none {a : BackingArray cap} {n : Nat} {h : n ≤ cap}
    {r : Stream} : (a.readFull n h r).2.1 = none ↔ n ≤ r.bytes.length := by
  simp only [readFull, Proto.readFull]; split <;> simp_all

end BackingArray

/-- A `sectorBuffer`: a `[]byte` of length `len` over an array of `cap` bytes. -/
structure SectorBuffer where
  cap : Nat
  arr : BackingArray cap
  len : Nat
  len_le : len ≤ cap

namespace SectorBuffer

/-- The nil slice, the zero value of `Downloader.sector`. -/
def nil : SectorBuffer := ⟨0, .zero 0, 0, le_refl _⟩

/-- `make([]byte, n)`. -/
def make (n : Nat) : SectorBuffer := ⟨n, .zero n, n, le_refl _⟩

/-- The bytes of the slice. -/
def bytes (sb : SectorBuffer) : Bytes := sb.arr.toList.take sb.len

@[simp] theorem length_bytes (sb : SectorBuffer) : sb.bytes.length = sb.len := by
  simp [bytes, sb.len_le]

/-- `if cap(*sb) != SectorSize { *sb = make([]byte, SectorSize) }`. -/
def realloc (sb : SectorBuffer) : SectorBuffer := if sb.cap ≠ SectorSize then make SectorSize else sb

@[simp] theorem cap_realloc (sb : SectorBuffer) : sb.realloc.cap = SectorSize := by
  unfold realloc; split <;> simp_all [make]

end SectorBuffer

/-- The checks of the header's three lengths: `totalSize`, `numSectors`, `payloadSize`. -/
def checkHeader (hdr : Bytes) : Option Err :=
  if SectorSize + 16 < (decLE64 hdr).toNat then
    some (.msg "reported payload size is larger than SectorSize")
  else if decLE64 (hdr.drop 8) ≠ 1 then some (.msg "wrong number of sectors")
  else if SectorSize < (decLE64 (hdr.drop 16)).toNat then
    some (.msg "reported sector data is larger than SectorSize")
  else none

theorem checkHeader_none {hdr : Bytes} :
    checkHeader hdr = none ↔ (decLE64 hdr).toNat ≤ SectorSize + 16 ∧ decLE64 (hdr.drop 8) = 1 ∧
      (decLE64 (hdr.drop 16)).toNat ≤ SectorSize := by
  unfold checkHeader; split_ifs <;> simp_all

/-- `sectorBuffer.UnmarshalSia(r)`: the buffer afterwards (`*sb`), the error, and the rest of the
stream. The 24-byte header is read into `buf[:24]`, and the payload into `buf[:payloadSize]`, over
the same array. -/
def unmarshalSia (sb : SectorBuffer) (r : Stream) :
    Except Panic (SectorBuffer × Option Err × Stream) :=
  let buf := sb.realloc
  if h24 : 24 ≤ buf.cap then
    match buf.arr.readFull 24 h24 r with
    | (arr, some e, r) => .ok (⟨buf.cap, arr, buf.len, buf.len_le⟩, some (.io e), r)
    | (arr, none, r) =>
      let hdr := arr.toList.take 24
      match checkHeader hdr with
      | some e => .ok (⟨buf.cap, arr, buf.len, buf.len_le⟩, some e, r)
      | none =>
        let payloadSize := decLE64 (hdr.drop 16)
        if hp : payloadSize.toNat ≤ buf.cap then
          match arr.readFull payloadSize.toNat hp r with
          | (arr, e, r) => .ok (⟨buf.cap, arr, payloadSize.toNat, hp⟩, e.map .io, r)
        else .error .indexOutOfRange
  else .error .indexOutOfRange

/-! ## What `UnmarshalSia` accepts -/

/-- **`UnmarshalSia` never panics.** Whatever the buffer it starts from and whatever the host sends,
it slices within the capacity, and the buffer afterwards has capacity `SectorSize`. -/
theorem unmarshalSia_ok (sb : SectorBuffer) (r : Stream) :
    ∃ sb' e r', unmarshalSia sb r = .ok (sb', e, r') ∧ sb'.cap = SectorSize := by
  have h24 : 24 ≤ sb.realloc.cap := by simp [SectorSize]
  simp only [unmarshalSia, dif_pos h24]
  split
  · exact ⟨_, _, _, rfl, by simp⟩
  · split
    · exact ⟨_, _, _, rfl, by simp⟩
    · next hc =>
      rw [dif_pos (by simpa using (checkHeader_none.1 hc).2.2)]
      exact ⟨_, _, _, rfl, by simp⟩

/-- **What a nil `UnmarshalSia` read.** The stream began with a 24-byte header declaring
`totalSize ≤ SectorSize + 16`, `numSectors = 1` and a `payloadSize ≤ SectorSize`, followed by
`payloadSize` bytes, and the buffer is exactly those bytes. -/
theorem unmarshalSia_nil {sb sb' : SectorBuffer} {r r' : Stream}
    (h : unmarshalSia sb r = .ok (sb', none, r')) :
    ∃ hdr, r.bytes = hdr ++ sb'.bytes ++ r'.bytes ∧ r'.err = r.err ∧ hdr.length = 24 ∧
      (decLE64 hdr).toNat ≤ SectorSize + 16 ∧ decLE64 (hdr.drop 8) = 1 ∧
      (decLE64 (hdr.drop 16)).toNat = sb'.len ∧ sb'.len ≤ SectorSize := by
  simp only [unmarshalSia] at h
  split at h
  · split at h
    · simp at h
    · next arr r1 hr =>
      obtain ⟨h1, ha, hr1⟩ := BackingArray.readFull_none (congrArg (·.2.1) hr)
      simp only [hr] at ha hr1
      subst hr1
      split at h
      · simp at h
      · next hc =>
        obtain ⟨c1, c2, c3⟩ := checkHeader_none.1 (ha ▸ hc)
        split at h
        · next hp =>
          simp only [Except.ok.injEq, Prod.mk.injEq, Option.map_eq_none'] at h
          obtain ⟨hs, h2, hr'⟩ := h
          obtain ⟨h2, ha2, hr2⟩ := BackingArray.readFull_none (a := arr) (h := hp) h2
          subst hs hr'
          refine ⟨r.bytes.take 24, ?_, by simp [hr2], by simp [h1], c1, c2, by simp [ha], by simpa [ha] using c3⟩
          simp only [SectorBuffer.bytes, ha2, hr2]
          simp [ha]
        · simp at h
  · simp at h

/-- A frame's header: `totalSize`, `numSectors = 1`, and the payload's length. -/
def frameHeader (total : UInt64) (payload : Bytes) : Bytes :=
  le64 total ++ le64 1 ++ le64 (UInt64.ofNat payload.length)

@[simp] theorem length_frameHeader (total : UInt64) (payload : Bytes) :
    (frameHeader total payload).length = 24 := by
  simp [frameHeader]

theorem frameHeader_fields (total : UInt64) (payload : Bytes) :
    decLE64 (frameHeader total payload) = total ∧ decLE64 ((frameHeader total payload).drop 8) = 1 ∧
      decLE64 ((frameHeader total payload).drop 16) = UInt64.ofNat payload.length := by
  simpa [frameHeader, List.drop_append_eq_append_drop, List.drop_eq_nil_of_le] using
    decLE64_le64 (UInt64.ofNat payload.length) []

/-- **`UnmarshalSia` accepts every frame** with a header within the bounds, and reads its payload. -/
theorem unmarshalSia_frame (sb : SectorBuffer) {total : UInt64} {payload : Bytes}
    (ht : total.toNat ≤ SectorSize + 16) (hp : payload.length ≤ SectorSize) (rest : Bytes) (e : IOErr) :
    ∃ sb', unmarshalSia sb ⟨frameHeader total payload ++ payload ++ rest, e⟩ =
      .ok (sb', none, ⟨rest, e⟩) ∧ sb'.bytes = payload := by
  have hl : (UInt64.ofNat payload.length).toNat = payload.length := by
    rw [toNat_ofNat64]; exact Nat.mod_eq_of_lt (by unfold SectorSize at hp; omega)
  have h24 : 24 ≤ sb.realloc.cap := by simp [SectorSize]
  have hd : (frameHeader total payload ++ payload ++ rest).drop 24 = payload ++ rest := by
    rw [List.append_assoc, List.drop_left' (length_frameHeader _ _)]
  obtain ⟨arr, hr, ha⟩ := sb.realloc.arr.readFull_of_le h24
    (r := ⟨frameHeader total payload ++ payload ++ rest, e⟩) (by simp)
  have hhdr : arr.toList.take 24 = frameHeader total payload := by
    rw [ha, List.append_assoc, ← length_frameHeader total payload, List.take_left]
  obtain ⟨f1, f2, f3⟩ := frameHeader_fields total payload
  have hn : (decLE64 ((arr.toList.take 24).drop 16)).toNat = payload.length := by rw [hhdr, f3, hl]
  have hc : checkHeader (arr.toList.take 24) = none := by
    rw [checkHeader_none, hn, hhdr, f1, f2]
    exact ⟨ht, rfl, hp⟩
  have hp' : (decLE64 ((arr.toList.take 24).drop 16)).toNat ≤ sb.realloc.cap := by
    rw [hn, SectorBuffer.cap_realloc]; exact hp
  obtain ⟨arr', hr', ha'⟩ := arr.readFull_of_le hp' (r := ⟨payload ++ rest, e⟩) (by simp [hn])
  refine ⟨⟨sb.realloc.cap, arr', _, hp'⟩, ?_, ?_⟩
  · rw [unmarshalSia, dif_pos h24]
    simp only [hr, hd, hc, dif_pos hp', hr']
    simp [hn]
  · simp only [SectorBuffer.bytes]
    rw [ha']
    simp [hn]

/-- A frame of one byte, read into the empty buffer. -/
theorem unmarshalSia_frame_one :
    ∃ sb', unmarshalSia .nil ⟨frameHeader 17 [7] ++ [7] ++ [], .eof⟩ = .ok (sb', none, ⟨[], .eof⟩) ∧
      sb'.bytes = [7] :=
  unmarshalSia_frame .nil (by decide) (by decide) [] .eof

end Us.Proto
