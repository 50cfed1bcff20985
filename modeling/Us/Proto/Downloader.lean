import Us.Proto.SectorBuffer

/-!
# The `Downloader`

A `Downloader` holds one connection to a host and downloads sectors from it, paying for each with
a revision of the renter's file contract. The model runs its methods in `Go`, a state monad over
the `World`: the downloader, and the log of its interactions with the host (`Event`). What the host
and the network do at each interaction is a `Net`, which answers by the interaction's index in the
log; every behaviour of the host and the network is some `Net`.

The helpers the methods call (`initiateRPC`, `startRevision`, `negotiateRevision`,
`newDownloadRevision`, `terminateRPC`, `isHostDisconnect`, the contract editor's `SyncWithHost`)
are not in the source; each is modelled by what the methods need of it and documented where it is
defined. Go functions return `(T, error)`: here `Except Err T`, or `Option Err` for a bare `error`,
inside `Go`, whose own failure is a run-time panic. A method called on a nil `net.Conn` panics
(`getConn`).
-/

set_option autoImplicit false

namespace Us.Proto

/-- `crypto.Hash`, a Merkle root. -/
abbrev Hash := ByteArr 32

/-- A `types.FileContractRevision`, with the fields a download changes: the revision number, and
the values of the renter's and the host's valid proof outputs. -/
structure Revision where
  number : UInt64
  renterFunds : Nat
  hostFunds : Nat
deriving DecidableEq, Repr

/-- Modelled from the spec: `newDownloadRevision(current, cost)` pays the host `cost` more out of
the renter's funds, every other term unchanged, numbered one above `current`. -/
def newDownloadRevision (current : Revision) (cost : Nat) : Revision :=
  { current with number := current.number + 1, renterFunds := current.renterFunds - cost,
                 hostFunds := current.hostFunds + cost }

/-- `hostdb.ScannedHost`: the fields a download reads. -/
structure ScannedHost where
  netAddress : Bytes
  downloadBandwidthPrice : Nat
deriving DecidableEq, Repr

/-- A connection, named by the index of the interaction that opened it. -/
abbrev Conn := Nat

/-- A `Downloader`. `contract` is the contract editor's current revision. -/
structure Downloader where
  host : ScannedHost
  contract : Revision
  sector : SectorBuffer
  conn : Option Conn

/-- The deadlines `extendDeadline` sets. -/
inductive Deadline where
  | negotiateDownload
  | hour
deriving DecidableEq, Repr

/-- An interaction of the downloader with the host or the contract editor: the dial of
`initiateRPC`, `extendDeadline`, the settings `startRevision` reads, the write of the download
action, the revision `negotiateRevision` proposes, the one `SyncWithHost` records, the read of the
sector by `UnmarshalSia`, `conn.Close()`, and `terminateRPC`. -/
inductive Event where
  | dial
  | deadline (c : Conn) (t : Deadline)
  | settings (c : Conn)
  | action (c : Conn) (root : Hash) (offset length : UInt64)
  | propose (c : Conn) (rev : Revision)
  | sync (rev : Revision)
  | read (c : Conn)
  | close (c : Conn)
  | terminate (c : Conn)
deriving DecidableEq, Repr

/-- What the host, the network and the contract editor answer at the interaction of each index:
the error of a dial (`none` when the session opens), the host's download price per byte or the
error of `startRevision`, the error of the write of the download action, that of
`negotiateRevision` (`none` when the host signs the revision, `ErrStopResponse` when it signs it
and ends the session), those of `SyncWithHost` and `terminateRPC`, and the bytes the host sends for
the sector. -/
structure Net where
  dial : Nat → Option Err
  settings : Nat → Except Err Nat
  send : Nat → Option Err
  negotiate : Nat → Option Err
  sync : Nat → Option Err
  response : Nat → Stream
  terminate : Nat → Option Err

/-- A downloader and the log of its interactions. -/
structure World where
  d : Downloader
  log : List Event

/-- Computations of the downloader; their own failure is a run-time panic. -/
abbrev Go := StateT World (Except Panic)

/-! ## Interactions -/

/-- Record `e`; its index in the log is the index the `Net` answers by. -/
def interact (e : Event) : Go Nat := fun w => .ok (w.log.length, { w with log := w.log ++ [e] })

/-- `d.conn`, for a method call on it: a nil connection panics. -/
def getConn : Go Conn := fun w =>
  match w.d.conn with
  | some c => .ok (c, w)
  | none => .error .nilDereference

/-- `extendDeadline(conn, t)`. -/
def extendDeadline (c : Conn) (t : Deadline) : Go Unit := do
  let _ ← interact (.deadline c t)

/-- `conn.Close()`. -/
def closeConn (c : Conn) : Go Unit := do
  let _ ← interact (.close c)

@[simp] theorem run_interact (e : Event) (w : World) :
    (interact e).run w = .ok (w.log.length, { w with log := w.log ++ [e] }) := rfl

@[simp] theorem run_getConn (w : World) :
    getConn.run w = match w.d.conn with
      | some c => .ok (c, w)
      | none => .error .nilDereference := rfl

@[simp] theorem run_extendDeadline (c : Conn) (t : Deadline) (w : World) :
    (extendDeadline c t).run w = .ok ((), { w with log := w.log ++ [.deadline c t] }) := rfl

@[simp] theorem run_closeConn (c : Conn) (w : World) :
    (closeConn c).run w = .ok ((), { w with log := w.log ++ [.close c] }) := rfl

section net

variable (net : Net)

/-- `initiateRPC(host.NetAddress, modules.RPCDownload, contract)`: the new connection, or nil and
the error. -/
def initiateRPC : Go (Option Conn × Option Err) := do
  let t ← interact .dial
  match net.dial t with
  | none => pure (some t, none)
  | some e => pure (none, some e)

/-- `startRevision(conn, &d.host)`: read the host's settings, with its current price. -/
def startRevision (c : Conn) : Go (Option Err) := do
  let t ← interact (.settings c)
  match net.settings t with
  | .ok p =>
    modify fun w => { w with d.host.downloadBandwidthPrice := p }
    pure none
  | .error e => pure (some e)

/-- `encoding.WriteObject(d.conn, []modules.DownloadAction{...})`. -/
def writeAction (c : Conn) (root : Hash) (offset length : UInt64) : Go (Option Err) := do
  let t ← interact (.action c root offset length)
  pure (net.send t)

/-- `negotiateRevision(d.conn, rev, txn.RenterKey)`: the error; `rev` is signed unless it is an
error other than `ErrStopResponse`. -/
def negotiateRevision (c : Conn) (rev : Revision) : Go (Option Err) := do
  let t ← interact (.propose c rev)
  pure (net.negotiate t)

/-- `d.contract.SyncWithHost(rev, sigs)`: on success the editor's revision is `rev`. -/
def syncWithHost (rev : Revision) : Go (Option Err) := do
  let t ← interact (.sync rev)
  match net.sync t with
  | none =>
    modify fun w => { w with d.contract := rev }
    pure none
  | some e => pure (some e)

/-- `d.sector.UnmarshalSia(d.conn)`. -/
def readSector (c : Conn) : Go (Option Err) := do
  let t ← interact (.read c)
  let w ← get
  let (sb, e, _) ← StateT.lift (unmarshalSia w.d.sector (net.response t))
  modify fun w => { w with d.sector := sb }
  pure e

theorem run_initiateRPC (w : World) : (initiateRPC net).run w =
    .ok ((match net.dial w.log.length with
      | none => (some w.log.length, none)
      | some e => (none, some e)), { w with log := w.log ++ [.dial] }) := by
  rcases h : net.dial w.log.length <;>
    simp only [initiateRPC, StateT.run_bind, run_interact, ok_bind, h] <;> rfl

theorem run_startRevision (c : Conn) (w : World) : (startRevision net c).run w =
    .ok (match net.settings w.log.length with
      | .ok p => (none, { w with log := w.log ++ [.settings c], d.host.downloadBandwidthPrice := p })
      | .error e => (some e, { w with log := w.log ++ [.settings c] })) := by
  rcases h : net.settings w.log.length <;>
    simp only [startRevision, StateT.run_bind, run_interact, ok_bind, h] <;> rfl

theorem run_writeAction (c : Conn) (root : Hash) (offset length : UInt64) (w : World) :
    (writeAction net c root offset length).run w =
      .ok (net.send w.log.length, { w with log := w.log ++ [.action c root offset length] }) := rfl

theorem run_negotiateRevision (c : Conn) (rev : Revision) (w : World) :
    (negotiateRevision net c rev).run w =
      .ok (net.negotiate w.log.length, { w with log := w.log ++ [.propose c rev] }) := rfl

theorem run_syncWithHost (rev : Revision) (w : World) : (syncWithHost net rev).run w =
    .ok (match net.sync w.log.length with
      | none => (none, { w with log := w.log ++ [.sync rev], d.contract := rev })
      | some e => (some e, { w with log := w.log ++ [.sync rev] })) := by
  rcases h : net.sync w.log.length <;>
    simp only [syncWithHost, StateT.run_bind, run_interact, ok_bind, h] <;> rfl

theorem run_readSector (c : Conn) (w : World) : (readSector net c).run w =
    (unmarshalSia w.d.sector (net.response w.log.length)).map fun r =>
      (r.2.1, { w with log := w.log ++ [.read c], d.sector := r.1 }) := by
  rcases h : unmarshalSia w.d.sector (net.response w.log.length) <;>
    simp only [readSector, StateT.run_bind, run_interact, ok_bind, StateT.run_get, pure_bind, h] <;> rfl

/-- `terminateRPC(d.conn, d.host)`: end the session and close the connection. -/
def terminateRPC : Go (Option Err) := do
  let c ← getConn
  let t ← interact (.terminate c)
  pure (net.terminate t)

end net

/-- The error an `errors.Wrap` chain wraps. -/
def Err.cause : Err → Err
  | .wrap _ e => e.cause
  | e => e

/-- Modelled from the spec: `isHostDisconnect(err)` holds of a transport-level disconnect, that is
the host closing or resetting the connection, also under `errors.Wrap`; not of a timeout or a
protocol-level error. -/
def isHostDisconnect : Option Err → Bool
  | some e => match e.cause with
    | .io .eof | .io .unexpectedEOF | .io .reset => true
    | _ => false
  | none => false

/-- The error of a `(T, error)` result. -/
def errOf {α : Type} : Except Err α → Option Err
  | .ok _ => none
  | .error e => some e

/-! ## The methods -/

section net

variable (net : Net)

/-- The body of `partialSector`, between its `extendDeadline` and its deferred one, over the
connection `c`. -/
def partialSectorBody (root : Hash) (offset length : UInt32) (c : Conn) :
    Go (Except Err Bytes) := do
  if UInt32.ofNat SectorSize < offset + length then return .error (.msg "invalid sector range")
  if let some e ← startRevision net c then return .error e
  let w ← get
  let txn := w.d.contract
  let sectorPrice := w.d.host.downloadBandwidthPrice * SectorSize
  if txn.renterFunds < sectorPrice then
    return .error (.msg "contract has insufficient funds to support download")
  if let some e ← writeAction net c root offset.toUInt64 length.toUInt64 then
    return .error (.wrap "could not send revision action" e)
  let rev := newDownloadRevision txn sectorPrice
  -- `ErrStopResponse` is ignored; any other error closes the connection
  if let some e := (← negotiateRevision net c rev).filter (· != .stopResponse) then
    closeConn c
    return .error e
  if let some e ← syncWithHost net rev then
    return .error (.wrap "could not update contract transaction" e)
  if let some e ← readSector net c then
    closeConn c
    return .error e
  let w ← get
  if UInt32.ofNat w.d.sector.len ≠ length then
    closeConn c
    return .error (.msg "host sent incomplete sector data")
  return .ok w.d.sector.bytes

/-- `d.partialSector(root, offset, length)`. -/
def partialSector (root : Hash) (offset length : UInt32) : Go (Except Err Bytes) := do
  let c ← getConn
  extendDeadline c .negotiateDownload
  let r ← partialSectorBody net root offset length c
  extendDeadline c .hour
  return r

/-- `d.PartialSector(root, offset, length)`: after a host disconnect, close the connection,
reconnect, and try once more. -/
def PartialSector (root : Hash) (offset length : UInt32) : Go (Except Err Bytes) := do
  let r ← partialSector net root offset length
  if isHostDisconnect (errOf r) then
    closeConn (← getConn)
    let (conn, err) ← initiateRPC net
    modify fun w => { w with d.conn := conn }
    if let some e := err then return .error e
    partialSector net root offset length
  else return r

/-- The `SectorSize` bytes of memory from the start of a slice, as `(*[SectorSize]byte)` reads them;
past the end of the backing array (never reached: the slice `Sector` converts has `SectorSize`
bytes) the model reads zeros. -/
def SectorBuffer.toSector (sb : SectorBuffer) : ByteArr SectorSize :=
  ⟨(sb.arr.toList ++ List.replicate SectorSize 0).take SectorSize, by simp⟩

/-- `d.Sector(root)`, with `SectorMerkleRoot` as `merkleRoot`. -/
def Sector (merkleRoot : ByteArr SectorSize → Hash) (root : Hash) :
    Go (Except Err (ByteArr SectorSize)) := do
  match ← PartialSector net root 0 (UInt32.ofNat SectorSize) with
  | .error e => return .error e
  | .ok sectorSlice =>
    if sectorSlice.length = 0 then throw .indexOutOfRange  -- `&sectorSlice[0]`
    let sector := (← get).d.sector.toSector
    if merkleRoot sector ≠ root then return .error (.msg "host sent invalid sector data")
    return .ok sector

/-- `d.Close()`. -/
def Close : Go (Option Err) := terminateRPC net

/-- `NewDownloader(host, contract)`: the session, whose first interaction opens its connection, or
the error. -/
def NewDownloader (host : ScannedHost) (contract : Revision) : Except Err World :=
  match net.dial 0 with
  | none => .ok ⟨⟨host, contract, .nil, some 0⟩, [.dial]⟩
  | some e => .error e

/-- A call of a session. -/
inductive Call where
  | partialSector (root : Hash) (offset length : UInt32)
  | sector (root : Hash)
  | close

/-- A call, with the error it returns. -/
def Call.apply (merkleRoot : ByteArr SectorSize → Hash) : Call → Go (Option Err)
  | .partialSector root offset length => errOf <$> PartialSector net root offset length
  | .sector root => errOf <$> Sector net merkleRoot root
  | .close => Close net

end net

end Us.Proto
