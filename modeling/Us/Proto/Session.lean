import Us.Proto.Downloader

/-!
# Download sessions

What the `Downloader`'s methods do for every behaviour of the host, the network and the contract
editor (every `Net`), and over every run of calls from `NewDownloader`.

* `partialSectorBody_spec`: the body of `partialSector` never panics and keeps the connection. It
  opens no connection and records at most one revision with `SyncWithHost`; it talks to the host
  only when the range check passes, and the one revision it proposes pays the host
  `price × SectorSize`; what it returns is the buffer's bytes, `length` of them, the payload of the
  host's response to the read it made, at an index of the log past where it started (`Delivered`).
* `PartialSector_spec`: a call reconnects at most once and records at most two revisions; it leaves
  the connection nil only when its reconnect failed, and it returns that error.
* `Reach.conn_eq_none`, `apply_ok`, `apply_nil`: in every state a session reaches, the connection
  is nil exactly after a failed reconnect, and then every call panics; otherwise none does.
-/

set_option autoImplicit false

namespace Us.Proto

/-- `b` is the payload of the frame the host sent in its response at `t`: the bytes after a
24-byte header that passes `UnmarshalSia`'s checks and declares `b.length` bytes. -/
def Payload (net : Net) (t : Nat) (b : Bytes) : Prop :=
  ∃ hdr rest, (net.response t).bytes = hdr ++ b ++ rest ∧ hdr.length = 24 ∧
    (decLE64 hdr).toNat ≤ SectorSize + 16 ∧ decLE64 (hdr.drop 8) = 1 ∧
    (decLE64 (hdr.drop 16)).toNat = b.length ∧ b.length ≤ SectorSize

/-- What a download returned, `b`, is the buffer of `w`, of capacity `SectorSize` and `length`
bytes long, and the payload of the response to the read from `c` at `t` of `w`'s log. -/
def Delivered (net : Net) (length : UInt32) (c : Conn) (w : World) (t : Nat) (b : Bytes) : Prop :=
  w.log[t]? = some (.read c) ∧ b = w.d.sector.bytes ∧ w.d.sector.cap = SectorSize ∧
    b.length = length.toNat ∧ Payload net t b

/-- `Delivered` only reads the buffer and the log up to `t`. -/
theorem Delivered.append_log {net : Net} {length : UInt32} {c : Conn} {w : World} {t : Nat} {b : Bytes}
    (h : Delivered net length c w t b) (es : List Event) :
    Delivered net length c { w with log := w.log ++ es } t b := by
  obtain ⟨ht, hrest⟩ := h
  refine ⟨?_, hrest⟩
  rw [List.getElem?_append_left (List.getElem?_eq_some_iff.1 ht).1, ht]

/-- A revision recorded with `SyncWithHost`. -/
def Event.isSync : Event → Bool
  | .sync _ => true
  | _ => false

/-- The number of revisions a list of events records with `SyncWithHost`. -/
def syncs (es : List Event) : Nat := (es.filter Event.isSync).length

@[simp] theorem syncs_nil : syncs [] = 0 := rfl

@[simp] theorem syncs_append (es es' : List Event) : syncs (es ++ es') = syncs es + syncs es' := by
  simp [syncs]

@[simp] theorem syncs_cons (e : Event) (es : List Event) :
    syncs (e :: es) = (if e.isSync then 1 else 0) + syncs es := by
  by_cases h : e.isSync <;> simp [syncs, List.filter_cons, h, Nat.add_comm]

theorem payload_of_unmarshalSia {net : Net} {sb sb' : SectorBuffer} {t : Nat} {r' : Stream}
    (h : unmarshalSia sb (net.response t) = .ok (sb', none, r')) : Payload net t sb'.bytes := by
  obtain ⟨hdr, hb, -, hl, h1, h2, h3, h4⟩ := unmarshalSia_nil h
  exact ⟨hdr, r'.bytes, hb, hl, h1, h2, by simpa using h3, by simpa using h4⟩

theorem delivered_of_unmarshalSia {net : Net} {length : UInt32} {c : Conn} {w : World} {t : Nat}
    {sb : SectorBuffer} {r' : Stream} (h : unmarshalSia sb (net.response t) = .ok (w.d.sector, none, r'))
    (hl : UInt32.ofNat w.d.sector.len = length) (ht : w.log[t]? = some (.read c)) :
    Delivered net length c w t w.d.sector.bytes := by
  obtain ⟨sb', e, r'', h', hcap⟩ := unmarshalSia_ok sb (net.response t)
  rw [h] at h'
  cases h'
  have hp := payload_of_unmarshalSia h
  have hle : w.d.sector.len < 2 ^ 32 := by
    obtain ⟨-, -, -, -, -, -, -, hle⟩ := hp
    simp only [SectorBuffer.length_bytes, SectorSize] at hle; omega
  refine ⟨ht, rfl, hcap, ?_, hp⟩
  rw [SectorBuffer.length_bytes, ← hl, toNat_ofNat32, Nat.mod_eq_of_lt hle]

/-! ## `partialSector` -/

section net

variable (net : Net) (root : Hash) (offset length : UInt32) {c : Conn}

/-- **The body of `partialSector`.** Whatever the host does, it returns, over the same connection.
It opens no connection and records at most one revision; it talks to the host only when the
range check passes; the revision it proposes pays the host `price × SectorSize`, at the price the
host's settings gave; and what it returns is `Delivered` by the read it made. -/
theorem partialSectorBody_spec (c : Conn) (w : World) :
    ∃ r w' es, (partialSectorBody net root offset length c).run w = .ok (r, w') ∧
      w'.d.conn = w.d.conn ∧ w'.log = w.log ++ es ∧ Event.dial ∉ es ∧ syncs es ≤ 1 ∧
      (es ≠ [] → ¬UInt32.ofNat SectorSize < offset + length) ∧
      (∀ rev, Event.propose c rev ∈ es → ∃ p, net.settings w.log.length = .ok p ∧
        rev = newDownloadRevision w.d.contract (p * SectorSize)) ∧
      ∀ b, r = .ok b → ∃ t, w.log.length ≤ t ∧ Delivered net length c w' t b := by
  by_cases hr : UInt32.ofNat SectorSize < offset + length
  · simp only [partialSectorBody, hr, if_true, StateT.run_pure]
    refine ⟨_, _, [], rfl, rfl, (List.append_nil _).symm, ?_⟩
    simp
  simp only [partialSectorBody, hr, if_false, pure_bind, StateT.run_bind, run_startRevision, ok_bind]
  rcases h1 : net.settings w.log.length with e | p
  · refine ⟨_, _, _, rfl, rfl, rfl, ?_⟩
    simp [Event.isSync]
  simp only [StateT.run_bind, StateT.run_get, pure_bind]
  by_cases hf : w.d.contract.renterFunds < p * SectorSize
  · simp only [hf, if_true, StateT.run_pure]
    refine ⟨_, _, _, rfl, rfl, rfl, ?_⟩
    simp [Event.isSync]
  simp only [hf, if_false, StateT.run_bind, run_writeAction, ok_bind, List.append_assoc, List.length_append,
    List.length_singleton]
  rcases h2 : net.send (w.log.length + 1) with _ | e
  swap
  · refine ⟨_, _, _, rfl, rfl, rfl, ?_⟩
    simp [Event.isSync]
  simp only [StateT.run_bind, run_negotiateRevision, ok_bind, List.append_assoc, List.length_append,
    List.length_singleton]
  split
  · simp only [StateT.run_bind, run_closeConn, ok_bind, List.append_assoc]
    refine ⟨_, _, _, rfl, rfl, rfl, ?_⟩
    simp [Event.isSync, h1]
  simp only [StateT.run_bind, run_syncWithHost, ok_bind, List.append_assoc, List.length_append,
    List.length_singleton]
  rcases h4 : net.sync (w.log.length + (1 + (1 + 1))) with _ | e
  swap
  · refine ⟨_, _, _, rfl, rfl, rfl, ?_⟩
    simp [Event.isSync, h1]
  obtain ⟨sb, e, r', hu, -⟩ :=
    unmarshalSia_ok w.d.sector (net.response (w.log.length + (1 + (1 + (1 + 1)))))
  simp only [StateT.run_bind, run_readSector, List.length_append, List.length_singleton, hu,
    Except.map, ok_bind, List.append_assoc]
  rcases e with _ | e
  swap
  · simp only [StateT.run_bind, run_closeConn, ok_bind, List.append_assoc]
    refine ⟨_, _, _, rfl, rfl, rfl, ?_⟩
    simp [Event.isSync, h1]
  simp only [StateT.run_bind, StateT.run_get, pure_bind]
  by_cases hl : UInt32.ofNat sb.len = length
  · simp only [hl, ne_eq, not_true_eq_false, if_false, StateT.run_pure]
    refine ⟨_, _, _, rfl, rfl, rfl, ?_⟩
    simp [Event.isSync, h1]
    exact ⟨_, by omega, delivered_of_unmarshalSia (w := ⟨{ w.d with sector := sb }, _⟩) hu hl
      (by rw [List.getElem?_append_right (by simp)]; simp)⟩
  · simp only [hl, ne_eq, not_false_eq_true, if_true, StateT.run_bind, run_closeConn, ok_bind,
      List.append_assoc]
    refine ⟨_, _, _, rfl, rfl, rfl, ?_⟩
    simp [Event.isSync, h1]

theorem partialSector_nil {w : World} (hc : w.d.conn = none) :
    (partialSector net root offset length).run w = .error .nilDereference := by
  simp only [partialSector, StateT.run_bind, run_getConn, hc, error_bind]

/-- **`partialSector`**, on a session with a connection: as its body, between the two deadlines. -/
theorem partialSector_spec {w : World} (hc : w.d.conn = some c) :
    ∃ r w' es, (partialSector net root offset length).run w = .ok (r, w') ∧
      w'.d.conn = w.d.conn ∧ w'.log = w.log ++ es ∧ Event.dial ∉ es ∧ syncs es ≤ 1 ∧
      ∀ b, r = .ok b → ∃ t, w.log.length ≤ t ∧ Delivered net length c w' t b := by
  obtain ⟨r, w', es, hrun, hconn, hlog, hdial, hsync, -, -, hok⟩ :=
    partialSectorBody_spec net root offset length c
      { w with log := w.log ++ [.deadline c .negotiateDownload] }
  refine ⟨r, { w' with log := w'.log ++ [.deadline c .hour] },
    .deadline c .negotiateDownload :: es ++ [.deadline c .hour], ?_, hconn, ?_, ?_, ?_, fun b hb => ?_⟩
  · simp only [partialSector, StateT.run_bind, run_getConn, hc, ok_bind, run_extendDeadline, hrun,
      StateT.run_pure]
    rfl
  · simp [hlog]
  · simp [hdial]
  · simpa [Event.isSync] using hsync
  · obtain ⟨t, ht, hd⟩ := hok b hb
    exact ⟨t, by simp only [List.length_append, List.length_singleton] at ht; omega, hd.append_log _⟩

/-! ## `PartialSector` -/

/-- The connection is nil only right after a dial that failed, with error `e`. -/
def FailedDial (net : Net) (log : List Event) (e : Err) : Prop :=
  ∃ l, log = l ++ [.dial] ∧ net.dial l.length = some e

/-- **`PartialSector`**, on a session with a connection. It dials at most once and records at most
two revisions; it leaves the connection nil only after its reconnect failed, and then returns that
error; what it returns is `Delivered` by its read on the connection it ends with. -/
theorem PartialSector_spec {w : World} (hc : w.d.conn = some c) :
    ∃ r w' es, (PartialSector net root offset length).run w = .ok (r, w') ∧
      w'.log = w.log ++ es ∧ es.count .dial ≤ 1 ∧ syncs es ≤ 2 ∧
      (w'.d.conn = none → ∃ e, r = .error e ∧ FailedDial net w'.log e) ∧
      ∀ b, r = .ok b → ∃ c t, w'.d.conn = some c ∧ w.log.length ≤ t ∧ Delivered net length c w' t b := by
  obtain ⟨r, w', es, hrun, hconn, hlog, hdial, hsync, hok⟩ := partialSector_spec net root offset length hc
  rw [hc] at hconn
  by_cases hd : isHostDisconnect (errOf r)
  swap
  · refine ⟨r, w', es, ?_, hlog, by simp [List.count_eq_zero_of_not_mem hdial],
      by omega, by simp [hconn], fun b hb => ⟨c, (hok b hb).imp fun _ h => ⟨hconn, h⟩⟩⟩
    simp only [PartialSector, StateT.run_bind, hrun, ok_bind, hd, Bool.false_eq_true, if_false]
    rfl
  rcases hdl : net.dial (w'.log.length + 1) with _ | e
  · obtain ⟨r2, w2, es2, hrun2, hconn2, hlog2, hdial2, hsync2, hok2⟩ :=
      partialSector_spec net root offset length
        (w := ⟨{ w'.d with conn := some (w'.log.length + 1) }, w'.log ++ [.close c, .dial]⟩) rfl
    refine ⟨r2, w2, es ++ [.close c, .dial] ++ es2, ?_, by simp [hlog2, hlog], ?_, ?_, ?_,
      fun b hb => ?_⟩
    · simp only [PartialSector, StateT.run_bind, hrun, ok_bind, hd, if_true, run_getConn, hconn,
        run_closeConn, run_initiateRPC, List.length_append, List.length_singleton, hdl,
        StateT.run_modify, pure_bind, StateT.run_pure, List.append_assoc, List.singleton_append]
      exact hrun2
    · simp [List.count_eq_zero_of_not_mem hdial, List.count_eq_zero_of_not_mem hdial2]
    · simp [Event.isSync]; omega
    · simp [hconn2]
    · obtain ⟨t, ht, hd⟩ := hok2 b hb
      exact ⟨_, t, hconn2, by simp only [hlog, List.length_append] at ht; omega, hd⟩
  · refine ⟨.error e, ⟨{ w'.d with conn := none }, w'.log ++ [.close c, .dial]⟩, es ++ [.close c, .dial],
      ?_, by simp [hlog], ?_, ?_, fun _ => ⟨e, rfl, w'.log ++ [.close c], by simp, by simpa using hdl⟩,
      by simp⟩
    · simp only [PartialSector, StateT.run_bind, hrun, ok_bind, hd, if_true, run_getConn, hconn,
        run_closeConn, run_initiateRPC, List.length_append, List.length_singleton, hdl,
        StateT.run_modify, pure_bind, StateT.run_pure, List.append_assoc, List.singleton_append]
      rfl
    · simp [List.count_eq_zero_of_not_mem hdial]
    · simp [Event.isSync]; omega

/-! ### Runs on concrete hosts -/

/-- A host asking 1 per byte. -/
def host₁ : ScannedHost := ⟨[1], 1⟩

/-- A contract with the funds for two sectors at that price. -/
def rev₀ : Revision := ⟨0, 2 * SectorSize, 0⟩

/-- The session `NewDownloader(host₁, rev₀)` opens when its dial succeeds. -/
def w₀ : World := ⟨⟨host₁, rev₀, .nil, some 0⟩, [.dial]⟩

/-- A framed one-byte payload `[7]`. -/
def frame₇ : Bytes := frameHeader 17 [7] ++ [7]

/-- A host that answers every request and sends `frame₇`. -/
def honest : Net where
  dial _ := none
  settings _ := .ok 1
  send _ := none
  negotiate _ := none
  sync _ := none
  response _ := ⟨frame₇, .eof⟩
  terminate _ := none

/-- `honest`, except that it resets the connection after the header of its first reply. -/
def resetMidPayload : Net :=
  { honest with response := fun t => if t = 6 then ⟨frameHeader 17 [7], .reset⟩ else ⟨frame₇, .eof⟩ }

/-- A reset while the payload is read, after the revision was recorded: `PartialSector` reconnects
and pays again, two revisions of `SectorSize` each for one byte. -/
theorem reconnect_pays_twice :
    NewDownloader resetMidPayload host₁ rev₀ = .ok w₀ ∧
      ((PartialSector resetMidPayload default 0 1).run w₀).map
          (fun p => (p.1, syncs p.2.log, p.2.d.contract)) =
        .ok (.ok [7], 2, newDownloadRevision (newDownloadRevision rev₀ SectorSize) SectorSize) :=
  ⟨rfl, rfl⟩

/-- `honest`, except that it refuses to sign revisions. -/
def refusing : Net := { honest with negotiate := fun _ => some (.other 0) }

/-- `offset = 2^32 - 1`, `length = 1`: the `uint32` sum wraps to 0 and passes the range check, and
the action for bytes past the sector is sent and a revision paying for it proposed. -/
theorem range_check_wraps :
    ((PartialSector refusing default 4294967295 1).run w₀).map (·.2.log) =
        .ok (w₀.log ++ [.deadline 0 .negotiateDownload, .settings 0, .action 0 default 4294967295 1,
          .propose 0 (newDownloadRevision rev₀ SectorSize), .close 0, .deadline 0 .hour]) ∧
      SectorSize < (4294967295 : UInt32).toNat + (1 : UInt32).toNat :=
  ⟨rfl, by decide⟩

/-- At price 1, one byte costs a whole sector: the recorded revision moves `SectorSize` to the host,
and with funds of 1 the call is refused. -/
theorem charge_is_sector_price :
    ((PartialSector honest default 0 1).run w₀).map (fun p => (p.1, p.2.d.contract)) =
        .ok (.ok [7], newDownloadRevision rev₀ SectorSize) ∧
      ((PartialSector honest default 0 1).run { w₀ with d.contract := ⟨0, 1, 0⟩ }).map (·.1) =
        .ok (.error (.msg "contract has insufficient funds to support download")) :=
  ⟨rfl, rfl⟩

theorem PartialSector_nil {w : World} (hc : w.d.conn = none) :
    (PartialSector net root offset length).run w = .error .nilDereference := by
  simp only [PartialSector, StateT.run_bind, partialSector_nil net root offset length hc, error_bind]

/-! ## `Sector` and `Close` -/

theorem toSector_toList {sb : SectorBuffer} (hc : sb.cap = SectorSize) (hl : sb.len = SectorSize) :
    sb.toSector.toList = sb.bytes := by
  have := sb.arr.length_toList
  simp only [SectorBuffer.toSector, SectorBuffer.bytes, hl]
  rw [List.take_append_of_le_length (by omega)]

/-- **`Sector`**, on a session with a connection: as `PartialSector` over the whole sector, and
the sector it returns has the root asked for and is the buffer, the payload of the response to the
read the call made. -/
theorem Sector_spec (merkleRoot : ByteArr SectorSize → Hash) {w : World} (hc : w.d.conn = some c) :
    ∃ r w' es, (Sector net merkleRoot root).run w = .ok (r, w') ∧
      w'.log = w.log ++ es ∧ es.count .dial ≤ 1 ∧ syncs es ≤ 2 ∧
      (w'.d.conn = none → ∃ e, r = .error e ∧ FailedDial net w'.log e) ∧
      ∀ s, r = .ok s → merkleRoot s = root ∧ ∃ c t, w'.d.conn = some c ∧ w.log.length ≤ t ∧
        w'.log[t]? = some (.read c) ∧ s.toList = w'.d.sector.bytes ∧ Payload net t s.toList := by
  obtain ⟨r, w', es, hrun, hlog, hdial, hsync, hnil, hok⟩ :=
    PartialSector_spec net root 0 (UInt32.ofNat SectorSize) hc
  rcases r with e | b
  · refine ⟨.error e, w', es, by simp [Sector, hrun], hlog, hdial, hsync, fun h => ?_, by simp⟩
    obtain ⟨e', he, hf⟩ := hnil h
    cases he
    exact ⟨e, rfl, hf⟩
  obtain ⟨c', t, hc', ht, hread, hb, hcap, hlen, hp⟩ := hok b rfl
  have hl : w'.d.sector.len = SectorSize := by
    rw [← SectorBuffer.length_bytes, ← hb, hlen]; rfl
  have hs : w'.d.sector.toSector.toList = b := by rw [toSector_toList hcap hl, hb]
  have hconn : w'.d.conn ≠ none := fun h => by simpa using hnil h
  have hb0 : b ≠ [] := List.ne_nil_of_length_pos (by rw [hlen]; decide)
  by_cases hm : merkleRoot w'.d.sector.toSector = root
  · refine ⟨.ok w'.d.sector.toSector, w', es, ?_, hlog, hdial, hsync, fun h => absurd h hconn, ?_⟩
    · simp [Sector, hrun, hb0, hm]
    · rintro s ⟨⟩; exact ⟨hm, c', t, hc', ht, hread, hs.trans hb, hs ▸ hp⟩
  · refine ⟨.error (.msg "host sent invalid sector data"), w', es, ?_, hlog, hdial, hsync,
      fun h => absurd h hconn, by simp⟩
    simp [Sector, hrun, hb0, hm]

theorem Sector_nil (merkleRoot : ByteArr SectorSize → Hash) {w : World} (hc : w.d.conn = none) :
    (Sector net merkleRoot root).run w = .error .nilDereference := by
  simp [Sector, PartialSector_nil net root 0 _ hc]

theorem Close_spec {w : World} (hc : w.d.conn = some c) :
    (Close net).run w = .ok (net.terminate w.log.length, { w with log := w.log ++ [.terminate c] }) := by
  simp [Close, terminateRPC, hc]

theorem Close_nil {w : World} (hc : w.d.conn = none) : (Close net).run w = .error .nilDereference := by
  simp [Close, terminateRPC, hc]

/-! ## Sessions -/

variable (merkleRoot : ByteArr SectorSize → Hash)

theorem apply_nil (call : Call) {w : World} (hc : w.d.conn = none) :
    (call.apply net merkleRoot).run w = .error .nilDereference := by
  cases call with
  | partialSector root offset length => simp [Call.apply, PartialSector_nil net root offset length hc]
  | sector root => simp [Call.apply, Sector_nil net root merkleRoot hc]
  | close => simp [Call.apply, Close_nil net hc]

/-- A call on a session with a connection returns; it leaves the connection nil only after a
reconnect that failed, and returns that error. -/
theorem apply_ok (call : Call) {w : World} (hc : w.d.conn = some c) :
    ∃ e w', (call.apply net merkleRoot).run w = .ok (e, w') ∧
      (w'.d.conn = none → ∃ e', e = some e' ∧ FailedDial net w'.log e') := by
  cases call with
  | partialSector root offset length =>
    obtain ⟨r, w', -, hrun, -, -, -, hnil, -⟩ := PartialSector_spec net root offset length hc
    refine ⟨errOf r, w', by simp [Call.apply, hrun], fun h => ?_⟩
    obtain ⟨e, rfl, hf⟩ := hnil h
    exact ⟨e, rfl, hf⟩
  | sector root =>
    obtain ⟨r, w', -, hrun, -, -, -, hnil, -⟩ := Sector_spec net root merkleRoot hc
    refine ⟨errOf r, w', by simp [Call.apply, hrun], fun h => ?_⟩
    obtain ⟨e, rfl, hf⟩ := hnil h
    exact ⟨e, rfl, hf⟩
  | close => exact ⟨_, _, Close_spec net hc, by simp [hc]⟩

/-- The states a session reaches from `NewDownloader`, by calls that do not panic. -/
inductive Reach (net : Net) (merkleRoot : ByteArr SectorSize → Hash) : World → Prop
  | new {host : ScannedHost} {contract : Revision} {w : World} :
      NewDownloader net host contract = .ok w → Reach net merkleRoot w
  | step {w w' : World} {call : Call} {e : Option Err} :
      Reach net merkleRoot w → (call.apply net merkleRoot).run w = .ok (e, w') →
        Reach net merkleRoot w'

/-- **A reachable session's connection is nil only after a reconnect that failed.** -/
theorem Reach.conn_eq_none {w : World} (h : Reach net merkleRoot w) (hn : w.d.conn = none) :
    ∃ e, FailedDial net w.log e := by
  induction h with
  | new hw =>
    unfold NewDownloader at hw
    split at hw <;> cases hw
    simp at hn
  | @step w w' call e _ ha _ =>
    cases hc : w.d.conn with
    | none => rw [apply_nil net merkleRoot call hc] at ha; cases ha
    | some c =>
      obtain ⟨e', w'', hrun, hnil⟩ := apply_ok net merkleRoot call hc
      rw [hrun] at ha
      cases ha
      obtain ⟨e'', -, hf⟩ := hnil hn
      exact ⟨e'', hf⟩

/-- `honest`, except that every connection is reset and every reconnect times out. -/
def unreachable : Net :=
  { honest with
    dial := fun t => if t = 0 then none else some (.io .timeout)
    settings := fun _ => .error (.io .reset) }

/-- After a reset and a reconnect that timed out, the session's connection is nil, and every call
panics. -/
theorem failed_reconnect_panics :
    ∃ w, Reach unreachable merkleRoot w ∧ w.d.conn = none ∧
      ∀ call, (Call.apply unreachable merkleRoot call).run w = .error .nilDereference :=
  ⟨_, .step (.new (rfl : NewDownloader unreachable host₁ rev₀ = .ok w₀))
      (rfl : ((Call.partialSector default 0 1).apply unreachable merkleRoot).run w₀ =
        .ok (some (.io .timeout), _)),
    rfl, fun call => apply_nil unreachable merkleRoot call rfl⟩

end net

/-- The session of `unreachable` reaches a nil connection, right after its reconnect failed. -/
theorem Reach.conn_eq_none_unreachable :
    ∃ w, Reach unreachable (fun _ => default) w ∧ w.d.conn = none ∧
      ∃ e, FailedDial unreachable w.log e := by
  obtain ⟨w, hr, hn⟩ : ∃ w, Reach unreachable (fun _ => default) w ∧ w.d.conn = none :=
    ⟨_, .step (.new (rfl : NewDownloader unreachable host₁ rev₀ = .ok w₀))
      (rfl : ((Call.partialSector default 0 1).apply unreachable fun _ => default).run w₀ =
        .ok (some (.io .timeout), _)), rfl⟩
  exact ⟨w, hr, hn, Reach.conn_eq_none unreachable _ hr hn⟩

/-! ## The payload a download returns -/

/-- **Downloads return the host's payload.** `UnmarshalSia` never panics, whatever buffer it starts
from and whatever the host sends, and leaves a buffer of capacity `SectorSize`; when it returns nil,
the host sent a 24-byte header declaring `totalSize ≤ SectorSize + 16`, `numSectors = 1` and
`payloadSize ≤ SectorSize`, and the buffer is the `payloadSize` bytes after it. So the slice a
successful `PartialSector` returns is the downloader's buffer, `length` bytes long, and the payload
of the host's response to a read the call made, on the connection it ends with, at `t` of the log;
the array a successful `Sector` returns is such a payload, with the root asked for. -/
theorem download_delivers_payload :
    (∀ sb r, ∃ sb' e r', unmarshalSia sb r = .ok (sb', e, r') ∧ sb'.cap = SectorSize) ∧
    (∀ sb sb' r r', unmarshalSia sb r = .ok (sb', none, r') →
      ∃ hdr, r.bytes = hdr ++ sb'.bytes ++ r'.bytes ∧ r'.err = r.err ∧ hdr.length = 24 ∧
        (decLE64 hdr).toNat ≤ SectorSize + 16 ∧ decLE64 (hdr.drop 8) = 1 ∧
        (decLE64 (hdr.drop 16)).toNat = sb'.len ∧ sb'.len ≤ SectorSize) ∧
    (∀ net w root offset length b w', (PartialSector net root offset length).run w = .ok (.ok b, w') →
      ∃ c t, w.log.length ≤ t ∧ w'.log[t]? = some (.read c) ∧ w'.d.conn = some c ∧
        b = w'.d.sector.bytes ∧ b.length = length.toNat ∧ Payload net t b) ∧
    (∀ net merkleRoot w root s w', (Sector net merkleRoot root).run w = .ok (.ok s, w') →
      merkleRoot s = root ∧ ∃ c t, w.log.length ≤ t ∧ w'.log[t]? = some (.read c) ∧
        w'.d.conn = some c ∧ s.toList = w'.d.sector.bytes ∧ Payload net t s.toList) := by
  refine ⟨unmarshalSia_ok, fun _ _ _ _ => unmarshalSia_nil, ?_, ?_⟩
  · intro net w root offset length b w' h
    cases hc : w.d.conn with
    | none => rw [PartialSector_nil net root offset length hc] at h; cases h
    | some c =>
      obtain ⟨r, w'', -, hrun, -, -, -, -, hok⟩ := PartialSector_spec net root offset length hc
      rw [hrun] at h
      cases h
      obtain ⟨c', t, hc', ht, hread, hb, -, hlen, hp⟩ := hok b rfl
      exact ⟨c', t, ht, hread, hc', hb, hlen, hp⟩
  · intro net merkleRoot w root s w' h
    cases hc : w.d.conn with
    | none => rw [Sector_nil net root merkleRoot hc] at h; cases h
    | some c =>
      obtain ⟨r, w'', -, hrun, -, -, -, -, hok⟩ := Sector_spec net root merkleRoot hc
      rw [hrun] at h
      cases h
      obtain ⟨hm, c', t, hc', ht, hread, hs, hp⟩ := hok s rfl
      exact ⟨hm, c', t, ht, hread, hc', hs, hp⟩

/-- A download of one byte from `honest` returns the byte it sent, read by the call. -/
theorem download_one_byte :
    ∃ w', (PartialSector honest default 0 1).run w₀ = .ok (.ok [7], w') ∧
      ∃ c t, w₀.log.length ≤ t ∧ w'.log[t]? = some (.read c) ∧ w'.d.conn = some c ∧
        [7] = w'.d.sector.bytes ∧ [7].length = (1 : UInt32).toNat ∧ Payload honest t [7] :=
  ⟨_, rfl, download_delivers_payload.2.2.1 honest w₀ default 0 1 [7] _ rfl⟩

end Us.Proto
