import Us.Proto.Session

/-!
# What a download session pays

A `Downloader` pays for each download with a revision of the renter's file contract: it proposes
`newDownloadRevision` of the contract editor's current revision to the host (`negotiateRevision`)
and, once the host signed it, records it with the editor (`SyncWithHost`), which takes it as its
current revision when the call returns nil.

`Preserves net I` says what a property `I` of the editor's revision and the log must survive for
every call of a session to keep it: an event that carries no revision, the proposal, and the record
of a signed proposal. One walk over the methods (`Preserves.partialSectorBody` to
`Preserves.apply`) shows that every call keeps every such `I`, whatever the host, the network and
the editor do, and `Preserves.session` that every run of calls from `NewDownloader` does. Two
instances:

* `session_revisions` (`RevInv`): every revision proposed or recorded, and the editor's current
  one, keeps the contract's total and leaves the renter no more than the contract did
  (`SpendsFrom`), since `partialSector` checks the renter's funds against the price before it
  builds the revision; every revision recorded was proposed at the interaction just before and
  signed by the host there (`SyncsSigned`); the editor's revision is the contract's or one recorded.
* `session_editor` (`EditorInv`): the revisions the editor accepted form a chain from the
  contract, each paying the host out of the one before (`Pays`), and the editor holds the last.
-/

set_option autoImplicit false

namespace Us.Proto

/-- The revision an event carries: one proposed to the host, or one recorded. -/
def Event.revision : Event → Option Revision
  | .propose _ rev => some rev
  | .sync rev => some rev
  | _ => none

/-- The host signed what it was asked to at that interaction: `negotiateRevision` returned nil, or
`ErrStopResponse`, which `partialSector` also takes as signed. -/
def Signed (o : Option Err) : Prop := o = none ∨ o = some .stopResponse

/-- `partialSector` goes on to `SyncWithHost` only when the host signed. -/
theorem signed_of_filter {o : Option Err} (h : ∀ e, o.filter (· != .stopResponse) = some e → False) :
    Signed o := by
  rcases o with _ | e
  · exact .inl rfl
  · by_cases he : e = .stopResponse
    · exact .inr (by rw [he])
    · exact absurd (by simp [Option.filter, he]) (h e)

/-! ## Every call keeps what its steps keep -/

/-- What a property `I` of the editor's revision `k` and the log must survive: an event that
carries no revision; the proposal of `newDownloadRevision k cost` for at most the renter's funds;
and, after the host signed it, its record, on which the editor takes the new revision when
`SyncWithHost` returns nil and keeps `k` otherwise. -/
structure Preserves (net : Net) (I : Revision → List Event → Prop) : Prop where
  push {k : Revision} {log : List Event} {e : Event} : e.revision = none → I k log → I k (log ++ [e])
  propose {k : Revision} {log : List Event} {cost : Nat} (c : Conn) : cost ≤ k.renterFunds →
    I k log → I k (log ++ [.propose c (newDownloadRevision k cost)])
  syncOk {k : Revision} {log : List Event} {cost : Nat} {c : Conn} : cost ≤ k.renterFunds →
    I k (log ++ [.propose c (newDownloadRevision k cost)]) → Signed (net.negotiate log.length) →
    net.sync (log.length + 1) = none →
    I (newDownloadRevision k cost)
      (log ++ [.propose c (newDownloadRevision k cost)] ++ [.sync (newDownloadRevision k cost)])
  syncError {k : Revision} {log : List Event} {cost : Nat} {c : Conn} {e : Err} :
    cost ≤ k.renterFunds → I k (log ++ [.propose c (newDownloadRevision k cost)]) →
    Signed (net.negotiate log.length) → net.sync (log.length + 1) = some e →
    I k (log ++ [.propose c (newDownloadRevision k cost)] ++ [.sync (newDownloadRevision k cost)])

/-- One call of a session that does not panic. -/
def Step (net : Net) (merkleRoot : ByteArr SectorSize → Hash) (w w' : World) : Prop :=
  ∃ (call : Call) (e : Option Err), (call.apply net merkleRoot).run w = .ok (e, w')

section methods

variable {net : Net} {I : Revision → List Event → Prop} (hI : Preserves net I)
include hI

section call

variable (root : Hash) (offset length : UInt32)

theorem Preserves.partialSectorBody (c : Conn) {w : World} (h : I w.d.contract w.log) :
    ∃ r w', (partialSectorBody net root offset length c).run w = .ok (r, w') ∧ I w'.d.contract w'.log := by
  by_cases hr : UInt32.ofNat SectorSize < offset + length
  · simp only [Proto.partialSectorBody, hr, if_true, StateT.run_pure]
    exact ⟨_, _, rfl, h⟩
  simp only [Proto.partialSectorBody, hr, if_false, pure_bind, StateT.run_bind, run_startRevision, ok_bind]
  rcases h1 : net.settings w.log.length with e | p
  · exact ⟨_, _, rfl, hI.push rfl h⟩
  simp only [StateT.run_bind, StateT.run_get, pure_bind]
  by_cases hf : w.d.contract.renterFunds < p * SectorSize
  · simp only [hf, if_true, StateT.run_pure]
    exact ⟨_, _, rfl, hI.push rfl h⟩
  have hc := not_lt.1 hf
  simp only [hf, if_false, StateT.run_bind, run_writeAction, ok_bind]
  split
  · exact ⟨_, _, rfl, hI.push rfl (hI.push rfl h)⟩
  have hp : I w.d.contract (w.log ++ [.settings c] ++ [.action c root offset.toUInt64 length.toUInt64] ++
      [.propose c (newDownloadRevision w.d.contract (p * SectorSize))]) :=
    hI.propose c hc (hI.push rfl (hI.push rfl h))
  simp only [StateT.run_bind, run_negotiateRevision, ok_bind]
  split
  · simp only [StateT.run_bind, run_closeConn, ok_bind]
    exact ⟨_, _, rfl, hI.push rfl hp⟩
  rename_i hn
  have hs := signed_of_filter hn
  simp only [StateT.run_bind, run_syncWithHost, List.length_append, List.length_singleton]
  rcases h4 : net.sync (w.log.length + 1 + 1 + 1) with _ | e
  swap
  · exact ⟨_, _, rfl, hI.syncError hc hp hs (by simpa using h4)⟩
  have hk := hI.syncOk hc hp hs (by simpa using h4)
  obtain ⟨sb, e, r', hu, -⟩ :=
    unmarshalSia_ok w.d.sector (net.response (w.log.length + 1 + 1 + 1 + 1))
  simp only [ok_bind, StateT.run_bind, run_readSector, List.length_append, List.length_singleton, hu,
    Except.map]
  rcases e with _ | e
  swap
  · exact ⟨_, _, rfl, hI.push rfl (hI.push rfl hk)⟩
  simp only [StateT.run_bind, StateT.run_get, pure_bind]
  split
  · exact ⟨_, _, rfl, hI.push rfl (hI.push rfl hk)⟩
  · exact ⟨_, _, rfl, hI.push rfl hk⟩

theorem Preserves.partialSector {c : Conn} {w : World} (hc : w.d.conn = some c) (h : I w.d.contract w.log) :
    ∃ r w', (partialSector net root offset length).run w = .ok (r, w') ∧
      w'.d.conn = w.d.conn ∧ I w'.d.contract w'.log := by
  obtain ⟨r, w', hrun, hinv⟩ := hI.partialSectorBody root offset length c
    (w := { w with log := w.log ++ [.deadline c .negotiateDownload] }) (hI.push rfl h)
  have hrun' : (Proto.partialSector net root offset length).run w =
      .ok (r, { w' with log := w'.log ++ [.deadline c .hour] }) := by
    simp only [Proto.partialSector, StateT.run_bind, run_getConn, hc, ok_bind, run_extendDeadline, hrun,
      StateT.run_pure]
    rfl
  obtain ⟨_, _, -, hspec, hconn, -⟩ := partialSector_spec net root offset length hc
  rw [hrun'] at hspec
  cases hspec
  exact ⟨_, _, hrun', hconn, hI.push rfl hinv⟩

theorem Preserves.PartialSector {c : Conn} {w : World} (hc : w.d.conn = some c) (h : I w.d.contract w.log) :
    ∃ r w', (PartialSector net root offset length).run w = .ok (r, w') ∧ I w'.d.contract w'.log := by
  obtain ⟨r, w', hrun, hconn, hinv⟩ := hI.partialSector root offset length hc h
  rw [hc] at hconn
  by_cases hd : isHostDisconnect (errOf r)
  swap
  · refine ⟨r, w', ?_, hinv⟩
    simp only [Proto.PartialSector, StateT.run_bind, hrun, ok_bind, hd, Bool.false_eq_true, if_false]
    rfl
  have hw : I w'.d.contract (w'.log ++ [.close c] ++ [.dial]) := hI.push rfl (hI.push rfl hinv)
  rcases hdl : net.dial (w'.log.length + 1) with _ | e
  · obtain ⟨r2, w2, hrun2, -, hinv2⟩ := hI.partialSector root offset length
      (w := ⟨{ w'.d with conn := some (w'.log.length + 1) }, w'.log ++ [.close c] ++ [.dial]⟩) rfl hw
    refine ⟨r2, w2, ?_, hinv2⟩
    simp only [Proto.PartialSector, StateT.run_bind, hrun, ok_bind, hd, if_true, run_getConn, hconn,
      run_closeConn, run_initiateRPC, List.length_append, List.length_singleton, hdl,
      StateT.run_modify, pure_bind, StateT.run_pure]
    exact hrun2
  · refine ⟨.error e, ⟨{ w'.d with conn := none }, w'.log ++ [.close c] ++ [.dial]⟩, ?_, hw⟩
    simp only [Proto.PartialSector, StateT.run_bind, hrun, ok_bind, hd, if_true, run_getConn, hconn,
      run_closeConn, run_initiateRPC, List.length_append, List.length_singleton, hdl,
      StateT.run_modify, pure_bind, StateT.run_pure]
    rfl

/-- `Sector` changes nothing after its `PartialSector`. -/
theorem Preserves.Sector (merkleRoot : ByteArr SectorSize → Hash) {c : Conn} {w w' : World}
    {r : Except Err (ByteArr SectorSize)} (hc : w.d.conn = some c) (h : I w.d.contract w.log)
    (hrun : (Sector net merkleRoot root).run w = .ok (r, w')) : I w'.d.contract w'.log := by
  obtain ⟨r2, w2, hrun2, hinv⟩ := hI.PartialSector root 0 (UInt32.ofNat SectorSize) hc h
  simp only [Proto.Sector, StateT.run_bind, hrun2, ok_bind] at hrun
  split at hrun
  · cases hrun; exact hinv
  · split at hrun
    · cases hrun
    · simp only [StateT.run_bind, StateT.run_get, pure_bind] at hrun
      split at hrun <;> cases hrun <;> exact hinv

end call

variable (merkleRoot : ByteArr SectorSize → Hash)

/-- **Every call keeps `I`**, whatever the host, the network and the editor do. -/
theorem Preserves.apply (call : Call) {w w' : World} {e : Option Err} (h : I w.d.contract w.log)
    (hrun : (call.apply net merkleRoot).run w = .ok (e, w')) : I w'.d.contract w'.log := by
  cases hc : w.d.conn with
  | none => rw [apply_nil net merkleRoot call hc] at hrun; cases hrun
  | some c =>
    cases call with
    | partialSector root offset length =>
      simp only [Call.apply, StateT.run_map, map_ok] at hrun
      obtain ⟨⟨r, w''⟩, hrun', he⟩ := hrun
      cases he
      obtain ⟨_, _, hrun2, hinv⟩ := hI.PartialSector root offset length hc h
      rw [hrun2] at hrun'
      cases hrun'
      exact hinv
    | sector root =>
      simp only [Call.apply, StateT.run_map, map_ok] at hrun
      obtain ⟨⟨r, w''⟩, hrun', he⟩ := hrun
      cases he
      exact hI.Sector root merkleRoot hc h hrun'
    | close =>
      rw [Call.apply, Close_spec net hc] at hrun
      cases hrun
      exact hI.push (by rfl) h

/-- **Every run keeps `I`**: from `NewDownloader(host, contract)`, when `I` holds of the contract
and the empty log. -/
theorem Preserves.session {host : ScannedHost} {contract : Revision} {w w' : World}
    (h0 : I contract []) (hnew : NewDownloader net host contract = .ok w)
    (hrun : Relation.ReflTransGen (Step net merkleRoot) w w') : I w'.d.contract w'.log := by
  induction hrun with
  | refl =>
    unfold NewDownloader at hnew
    split at hnew <;> cases hnew
    exact hI.push (by rfl) h0
  | tail _ hs ih =>
    obtain ⟨call, e, hs⟩ := hs
    exact hI.apply merkleRoot call ih hs

end methods

/-! ## What the revisions pay -/

/-- `r` pays out of the funds of `r₀`: the same total, and no more for the renter. -/
def Revision.SpendsFrom (r₀ r : Revision) : Prop :=
  r.renterFunds + r.hostFunds = r₀.renterFunds + r₀.hostFunds ∧ r.renterFunds ≤ r₀.renterFunds

/-- Every revision recorded in `log` was proposed at the interaction just before, and signed. -/
def SyncsSigned (net : Net) (log : List Event) : Prop :=
  ∀ i rev, log[i]? = some (.sync rev) →
    ∃ j c, i = j + 1 ∧ log[j]? = some (.propose c rev) ∧ Signed (net.negotiate j)

/-- The revisions of a session begun from the contract `r₀`, with the editor's revision `k` and
the log `log` (module doc). -/
structure RevInv (net : Net) (r₀ k : Revision) (log : List Event) : Prop where
  current : r₀.SpendsFrom k
  recorded : k = r₀ ∨ Event.sync k ∈ log
  logged : ∀ e ∈ log, ∀ rev, e.revision = some rev → r₀.SpendsFrom rev
  signed : SyncsSigned net log

theorem Revision.SpendsFrom.refl (r : Revision) : r.SpendsFrom r := ⟨rfl, le_rfl⟩

/-- A download revision for at most the renter's funds pays out of them. -/
theorem Revision.SpendsFrom.newDownloadRevision {r₀ k : Revision} (h : r₀.SpendsFrom k) {cost : Nat}
    (hc : cost ≤ k.renterFunds) : r₀.SpendsFrom (newDownloadRevision k cost) := by
  obtain ⟨h1, h2⟩ := h
  exact ⟨by simp only [Proto.newDownloadRevision]; omega, by simp only [Proto.newDownloadRevision]; omega⟩

section revInv

variable {net : Net} {log : List Event}

theorem SyncsSigned.push (h : SyncsSigned net log) {e : Event} (he : ∀ rev, e ≠ .sync rev) :
    SyncsSigned net (log ++ [e]) := by
  intro i rev hi
  rcases Nat.lt_or_ge i log.length with hl | hl
  · rw [List.getElem?_append_left hl] at hi
    obtain ⟨j, c, rfl, hj, hs⟩ := h _ rev hi
    exact ⟨j, c, rfl, by rw [List.getElem?_append_left (by omega)]; exact hj, hs⟩
  · rw [List.getElem?_append_right hl] at hi
    exact absurd (List.mem_singleton.1 (List.getElem?_mem hi)).symm (he rev)

/-- A revision recorded just after the host signed its proposal. -/
theorem SyncsSigned.sync {c : Conn} {rev : Revision} (h : SyncsSigned net (log ++ [.propose c rev]))
    (hs : Signed (net.negotiate log.length)) : SyncsSigned net (log ++ [.propose c rev] ++ [.sync rev]) := by
  intro i rev' hi
  rcases Nat.lt_or_ge i (log.length + 1) with hl | hl
  · rw [List.getElem?_append_left (by simpa using hl)] at hi
    obtain ⟨j, c', rfl, hj, hs'⟩ := h _ rev' hi
    exact ⟨j, c', rfl, by rw [List.getElem?_append_left (by simp; omega)]; exact hj, hs'⟩
  · rw [List.getElem?_append_right (by simpa using hl)] at hi
    obtain rfl : i = log.length + 1 := by
      by_contra hne
      rw [List.getElem?_eq_none (by simp; omega)] at hi; cases hi
    obtain rfl : rev = rev' := by simpa using hi
    exact ⟨log.length, c, rfl, by rw [List.getElem?_append_left (by simp), List.getElem?_concat_length], hs⟩

variable {r₀ k : Revision}

theorem RevInv.nil (r₀ : Revision) : RevInv net r₀ r₀ [] :=
  ⟨.refl r₀, .inl rfl, fun _ he => absurd he (List.not_mem_nil _), fun i rev hi => by simp at hi⟩

/-- An event that carries no revision. -/
theorem RevInv.push (h : RevInv net r₀ k log) {e : Event} (he : e.revision = none) :
    RevInv net r₀ k (log ++ [e]) := by
  refine ⟨h.current, h.recorded.imp_right (List.mem_append_left _), fun e' he' rev hr => ?_,
    h.signed.push fun rev hs => by rw [hs] at he; cases he⟩
  rcases List.mem_append.1 he' with he' | he'
  · exact h.logged e' he' rev hr
  · rw [List.mem_singleton.1 he', he] at hr; cases hr

/-- A proposal of `newDownloadRevision` of the editor's revision, for at most the renter's funds. -/
theorem RevInv.propose (h : RevInv net r₀ k log) {cost : Nat} (hc : cost ≤ k.renterFunds) (c : Conn) :
    RevInv net r₀ k (log ++ [.propose c (newDownloadRevision k cost)]) := by
  refine ⟨h.current, h.recorded.imp_right (List.mem_append_left _), fun e he rev hr => ?_,
    h.signed.push fun _ => Event.noConfusion⟩
  rcases List.mem_append.1 he with he | he
  · exact h.logged e he rev hr
  · obtain rfl := List.mem_singleton.1 he
    cases hr
    exact h.current.newDownloadRevision hc

/-- The record of a proposal the host signed; the editor keeps its revision, when `SyncWithHost`
fails, or takes the new one. -/
theorem RevInv.sync {c : Conn} {rev : Revision} (h : RevInv net r₀ k (log ++ [.propose c rev]))
    (hs : Signed (net.negotiate log.length)) :
    ∀ k', k' = k ∨ k' = rev → RevInv net r₀ k' (log ++ [.propose c rev] ++ [.sync rev]) := by
  have hrev : r₀.SpendsFrom rev := h.logged (.propose c rev) (by simp) rev rfl
  intro k' hk
  refine ⟨?_, ?_, fun e he rev' hr => ?_, h.signed.sync hs⟩
  · rcases hk with rfl | rfl
    · exact h.current
    · exact hrev
  · rcases hk with rfl | rfl
    · exact h.recorded.imp_right (List.mem_append_left _)
    · exact .inr (by simp)
  · rcases List.mem_append.1 he with he | he
    · exact h.logged e he rev' hr
    · obtain rfl := List.mem_singleton.1 he
      cases hr
      exact hrev

theorem RevInv.preserves (r₀ : Revision) : Preserves net (RevInv net r₀) where
  push he h := h.push he
  propose c hc h := h.propose hc c
  syncOk _ h hs _ := h.sync hs _ (.inr rfl)
  syncError _ h hs _ := h.sync hs _ (.inl rfl)

end revInv

/-- **The revisions of a session.** Over every run of calls from `NewDownloader(host, contract)`
that do not panic, for every behaviour of the host, the network and the contract editor: the
editor's revision and every revision proposed or recorded keeps the contract's total and leaves the
renter no more than the contract; every revision recorded was proposed at the interaction just
before and signed by the host there; and the editor's revision is the contract's, or one recorded. -/
theorem session_revisions {net : Net} (merkleRoot : ByteArr SectorSize → Hash) {host : ScannedHost}
    {contract : Revision} {w w' : World} (hnew : NewDownloader net host contract = .ok w)
    (hrun : Relation.ReflTransGen (Step net merkleRoot) w w') :
    RevInv net contract w'.d.contract w'.log :=
  (RevInv.preserves contract).session merkleRoot (RevInv.nil contract) hnew hrun

/-- A session of `honest` after one download: its revisions keep `RevInv`. -/
theorem session_revisions_honest :
    ∃ w, Step honest (fun _ => default) w₀ w ∧ RevInv honest rev₀ w.d.contract w.log := by
  obtain ⟨w, hs⟩ : ∃ w, Step honest (fun _ => default) w₀ w := ⟨_, .partialSector default 0 1, none, rfl⟩
  exact ⟨w, hs, session_revisions _ (rfl : NewDownloader honest host₁ rev₀ = .ok w₀) (.single hs)⟩

/-! ## The revisions the editor accepted -/

/-- The revision the editor accepted at the interaction `i`, when it is a `SyncWithHost` that
returned nil. -/
def acceptedAt (net : Net) : Nat × Event → Option Revision
  | (i, .sync rev) => if net.sync i = none then some rev else none
  | _ => none

/-- The revisions the editor accepted, in order. -/
def accepted (net : Net) (log : List Event) : List Revision := log.enum.filterMap (acceptedAt net)

/-- `b` pays the host out of `a`: `newDownloadRevision` of `a` for at most the renter's funds. -/
def Pays (a b : Revision) : Prop := ∃ cost ≤ a.renterFunds, b = newDownloadRevision a cost

/-- The editor's revision `k`, over the log of a session begun from the contract `r₀`: the last of
the contract and the revisions the editor accepted, each of which pays out of the one before. -/
structure EditorInv (net : Net) (r₀ k : Revision) (log : List Event) : Prop where
  last : (r₀ :: accepted net log).getLast? = some k
  chain : List.Chain' Pays (r₀ :: accepted net log)

section editorInv

variable {net : Net} {r₀ k : Revision} {log : List Event}

theorem accepted_append_singleton (e : Event) :
    accepted net (log ++ [e]) = accepted net log ++ (acceptedAt net (log.length, e)).toList := by
  simp only [accepted, List.enum_append, List.enumFrom_singleton, List.filterMap_append,
    List.filterMap_cons, List.filterMap_nil]
  cases acceptedAt net (log.length, e) <;> rfl

theorem acceptedAt_of_revision {e : Event} (he : e.revision = none) (i : Nat) : acceptedAt net (i, e) = none := by
  cases e <;> first | rfl | cases he

theorem EditorInv.nil (r₀ : Revision) : EditorInv net r₀ r₀ [] := ⟨rfl, List.chain'_singleton r₀⟩

/-- An event that records no revision leaves what the editor accepted. -/
theorem EditorInv.push (h : EditorInv net r₀ k log) {e : Event} (he : acceptedAt net (log.length, e) = none) :
    EditorInv net r₀ k (log ++ [e]) := by
  have ha : accepted net (log ++ [e]) = accepted net log := by simp [accepted_append_singleton, he]
  exact ⟨by rw [ha]; exact h.last, by rw [ha]; exact h.chain⟩

/-- A revision the editor accepts, paying out of its revision. -/
theorem EditorInv.accept (h : EditorInv net r₀ k log) {rev : Revision} (hp : Pays k rev)
    (he : acceptedAt net (log.length, .sync rev) = some rev) : EditorInv net r₀ rev (log ++ [.sync rev]) := by
  have ha : r₀ :: accepted net (log ++ [.sync rev]) = (r₀ :: accepted net log) ++ [rev] := by
    simp [accepted_append_singleton, he]
  refine ⟨by rw [ha, List.getLast?_append]; rfl, ?_⟩
  rw [ha]
  refine h.chain.append (List.chain'_singleton rev) fun x hx y hy => ?_
  rw [h.last] at hx
  cases hx
  cases List.mem_singleton.1 (List.mem_of_mem_head? hy)
  exact hp

theorem EditorInv.preserves (r₀ : Revision) : Preserves net (EditorInv net r₀) where
  push he h := h.push (acceptedAt_of_revision he _)
  propose _ _ h := h.push (by rfl)
  syncOk hc h _ hn := h.accept ⟨_, hc, rfl⟩ (by simp [acceptedAt, hn])
  syncError _ h _ he := h.push (by simp [acceptedAt, he])

end editorInv

/-- **The editor's revisions form a payment chain.** Over every run of calls from
`NewDownloader(host, contract)` that do not panic, for every behaviour of the host, the network and
the contract editor, the revisions the editor accepted (the `SyncWithHost` calls that returned nil)
form a chain from the contract in which each is `newDownloadRevision` of the one before, for at most
its renter's funds; and the editor holds the last of them, or the contract. -/
theorem session_editor {net : Net} (merkleRoot : ByteArr SectorSize → Hash) {host : ScannedHost}
    {contract : Revision} {w w' : World} (hnew : NewDownloader net host contract = .ok w)
    (hrun : Relation.ReflTransGen (Step net merkleRoot) w w') :
    EditorInv net contract w'.d.contract w'.log :=
  (EditorInv.preserves contract).session merkleRoot (EditorInv.nil contract) hnew hrun

/-- A session of `honest` after one download: the editor accepted one revision, which pays
`SectorSize` out of `rev₀`. -/
theorem session_editor_honest :
    ∃ w, Step honest (fun _ => default) w₀ w ∧
      accepted honest w.log = [newDownloadRevision rev₀ SectorSize] ∧
      EditorInv honest rev₀ w.d.contract w.log := by
  obtain ⟨w, hs, ha⟩ : ∃ w, Step honest (fun _ => default) w₀ w ∧
      accepted honest w.log = [newDownloadRevision rev₀ SectorSize] :=
    ⟨_, ⟨.partialSector default 0 1, none, rfl⟩, rfl⟩
  exact ⟨w, hs, ha, session_editor _ (rfl : NewDownloader honest host₁ rev₀ = .ok w₀) (.single hs)⟩

end Us.Proto
