import Mathlib.Data.Finset.Basic
import Mathlib.Logic.Function.Basic
import OpenDiamond.Lib.OrderedDict
import OpenDiamond.Lib.Runs

/-!
# Pairing control and data connections

The supervisor accepts connections and reads a nonce of sixteen bytes from each, without
blocking. Null bytes announce a control connection, which is answered with a random nonce
and then watched; any other nonce announces the data connection of the control connection
that was given it. Control connections are looked up in a weak dictionary: an entry is
visible as long as the poll table or the list of the current poll batch refers to the
connection. What peers send, how `recv` cuts it and which calls fail is up to the
environment.
-/

namespace OpenDiamond.Listen

open Lib.OrderedDict Lib.Runs

abbrev Bytes := List UInt8

/-- `NONCE_LEN`. -/
def nonceLen : ℕ := 16

/-- `NULL_NONCE`. -/
def nullNonce : Bytes := List.replicate nonceLen 0

/-- A result of `os.urandom(NONCE_LEN)`. -/
structure Random where
  /-- The bytes. -/
  bytes : Bytes
  /-- There are as many as were asked for. -/
  length : bytes.length = nonceLen

/-! ## One connection -/

/-- A `_PendingConn` and its socket. -/
structure PendingConn where
  /-- All bytes that the peer sends, over the whole life of the connection. -/
  stream : Bytes
  /-- How many of them have been received. -/
  read : ℕ
  /-- The bytes that were sent to the peer. -/
  outgoing : Bytes
  /-- `nonce`. -/
  nonce : Bytes

/-- `_PendingConn.__init__`. -/
def PendingConn.new (stream : Bytes) : PendingConn := ⟨stream, 0, [], []⟩

/-- `recv` that finds some bytes; none are left when the peer has closed. -/
def PendingConn.recv (pconn : PendingConn) (count size : ℕ) : Bytes :=
  (pconn.stream.drop pconn.read).take (min count (size + 1))

/-- What `sendall` does. -/
inductive Send where
  | sent
  /-- It raises `socket.error` after some bytes. -/
  | failed (count : ℕ)

/-- What the environment decides about one readiness event. -/
structure Readiness where
  /-- How many bytes beyond the first `recv` may return, or `none` for a `socket.error`. -/
  recv : Option ℕ
  /-- The random bytes. -/
  random : Random
  /-- The result of `sendall`. -/
  send : Send

/-- How `read_nonce` ends. -/
inductive NonceRead where
  /-- It returns `CONTROL`. -/
  | control
  /-- It returns `DATA`. -/
  | data
  /-- It returns `None`. -/
  | later
  /-- It raises `_ConnectionClosed`. -/
  | connectionClosed
  /-- `recv` raises `socket.error`. -/
  | socketError
  deriving DecidableEq

/-- `_PendingConn.read_nonce`. -/
def PendingConn.readNonce (pconn : PendingConn) (ready : Readiness) : NonceRead × PendingConn :=
  if pconn.nonce.length < nonceLen then
    match ready.recv with
    | none => (.socketError, pconn)
    | some size =>
      let data := pconn.recv (nonceLen - pconn.nonce.length) size
      if data = [] then (.connectionClosed, pconn)
      else
        let nonce := pconn.nonce ++ data
        let received := { pconn with read := pconn.read + data.length, nonce := nonce }
        if nonce.length = nonceLen then
          if nonce = nullNonce then (.control, { received with nonce := ready.random.bytes })
          else (.data, received)
        else (.later, received)
  else (.connectionClosed, pconn)

/-- `_PendingConn.send_nonce`; `false` for `_ConnectionClosed`. -/
def PendingConn.sendNonce (pconn : PendingConn) : Send → Bool × PendingConn
  | .sent => (true, { pconn with outgoing := pconn.outgoing ++ pconn.nonce })
  | .failed count =>
    (false, { pconn with outgoing := pconn.outgoing ++ pconn.nonce.take count })

/-- The nonce is still being read. -/
structure PendingConn.Reading (pconn : PendingConn) : Prop where
  /-- Some bytes are missing. -/
  short : pconn.nonce.length < nonceLen
  /-- What was received is the nonce so far. -/
  read : pconn.read = pconn.nonce.length
  /-- It is what the peer sent first. -/
  first : pconn.stream.take pconn.read = pconn.nonce
  /-- Nothing was sent. -/
  silent : pconn.outgoing = []

/-- Exactly these bytes were received, before any others. -/
def PendingConn.Sent (pconn : PendingConn) (nonce : Bytes) : Prop :=
  pconn.read = nonceLen ∧ pconn.stream.take nonceLen = nonce

/-- A control connection that was answered with its nonce. -/
structure PendingConn.Waiting (pconn : PendingConn) : Prop where
  /-- It sent null bytes. -/
  sent : pconn.Sent nullNonce
  /-- It was answered. -/
  answered : pconn.outgoing = pconn.nonce
  /-- The nonce is complete. -/
  length : pconn.nonce.length = nonceLen

/-- A new connection is still reading its nonce, of which nothing has come. -/
theorem PendingConn.reading_new (stream : Bytes) : (PendingConn.new stream).Reading := by
  constructor
  · simp [new, nonceLen]
  · rfl
  · simp [new]
  · rfl

/-- What a call of `read_nonce` leaves, while the nonce is being read. -/
def PendingConn.ReadsTo (random : Random) (pconn : PendingConn) : NonceRead → Prop
  | .control => pconn.Sent nullNonce ∧ pconn.nonce = random.bytes ∧ pconn.outgoing = []
  | .data => pconn.Sent pconn.nonce ∧ pconn.nonce ≠ nullNonce ∧ pconn.outgoing = []
  | .later => pconn.Reading
  | .connectionClosed => pconn.Reading
  | .socketError => pconn.Reading

/-- A call of `read_nonce` leaves the nonce incomplete or tells a control connection from a data
connection by it. -/
theorem PendingConn.Reading.readNonce {pconn : PendingConn} (h : pconn.Reading)
    (ready : Readiness) :
    (pconn.readNonce ready).2.ReadsTo ready.random (pconn.readNonce ready).1 := by
  unfold PendingConn.readNonce
  rw [if_pos h.short]
  cases ready.recv with
  | none => exact h
  | some size =>
    dsimp only
    split
    · exact h
    · have hlength : (pconn.recv (nonceLen - pconn.nonce.length) size).length ≤
          nonceLen - pconn.nonce.length := by
        rw [recv, List.length_take]
        omega
      have hread : pconn.stream.take (pconn.read +
          (pconn.recv (nonceLen - pconn.nonce.length) size).length) =
            pconn.nonce ++ pconn.recv (nonceLen - pconn.nonce.length) size := by
        have hchunk := List.prefix_iff_eq_take.mp (List.take_prefix
          (min (nonceLen - pconn.nonce.length) (size + 1)) (pconn.stream.drop pconn.read))
        rw [List.take_add, h.first]
        exact congrArg (pconn.nonce ++ ·) hchunk.symm
      have hread' := h.read
      have hshort := h.short
      split
      · rename_i hfull
        rw [List.length_append] at hfull
        have htotal : pconn.read +
            (pconn.recv (nonceLen - pconn.nonce.length) size).length = nonceLen := by omega
        rw [htotal] at hread
        split
        · rename_i hnull
          exact ⟨⟨htotal, hread.trans hnull⟩, rfl, h.silent⟩
        · rename_i hnull
          exact ⟨⟨htotal, hread⟩, hnull, h.silent⟩
      · rename_i hmore
        rw [List.length_append] at hmore
        have hlength' : (pconn.nonce ++
            pconn.recv (nonceLen - pconn.nonce.length) size).length = pconn.nonce.length +
              (pconn.recv (nonceLen - pconn.nonce.length) size).length := List.length_append
        exact ⟨by dsimp only; omega, by dsimp only; omega, hread, h.silent⟩

/-- A connection whose nonce is complete has nothing more to say. -/
theorem PendingConn.Waiting.readNonce {pconn : PendingConn} (h : pconn.Waiting)
    (ready : Readiness) : pconn.readNonce ready = (.connectionClosed, pconn) := by
  have hfull := h.length
  unfold PendingConn.readNonce
  rw [if_neg (by omega)]

/-! ## The listener -/

/-- An item of a poll batch. -/
inductive Ready where
  /-- A listening socket. -/
  | listening
  /-- A pending connection, by its socket. -/
  | conn (sock : ℕ)
  deriving DecidableEq

/-- The connections among the items of a batch. -/
def socks : List Ready → List ℕ
  | [] => []
  | .listening :: rest => socks rest
  | .conn sock :: rest => sock :: socks rest

/-- An exception that leaves `ConnListener.accept`. -/
inductive Raised where
  /-- `socket.error`. -/
  | socketError
  /-- `KeyError` of `select.poll.unregister`. -/
  | keyError
  deriving DecidableEq

/-- A `ConnListener`. Sockets are numbered in the order of their acceptance; a number
stands for the socket and for its descriptor, which is not reused while anything refers to
the connection. -/
structure Listener where
  /-- The connections, by socket. -/
  conns : ℕ → PendingConn
  /-- The number of the next socket. -/
  next : ℕ
  /-- `_pollset` and `_fd_to_pconn`, which hold the same descriptors. -/
  registered : Finset ℕ
  /-- `_nonce_to_pending`, with the entries that are no longer visible. -/
  nonceToPending : Dict Bytes ℕ
  /-- The list that the loop in `accept` runs over. -/
  batch : List Ready
  /-- The items of it that are still to be handled. -/
  rest : List Ready
  /-- The connections that were reported closed. -/
  died : Finset ℕ
  /-- The pairs that calls of `accept` have returned. -/
  returned : List (ℕ × ℕ)
  /-- The exception that ended the supervisor. -/
  raised : Option Raised

namespace Listener

/-- A new listener. -/
def new : Listener :=
  ⟨fun _ => .new [], 0, ∅, Dict.empty, [], [], ∅, [], none⟩

/-- `_poll.unregister`, `none` for the `KeyError`. -/
def unregister (s : Listener) (sock : ℕ) : Option Listener :=
  if sock ∈ s.registered then some { s with registered := s.registered.erase sock } else none

/-- `_nonce_to_pending.get`: something must still refer to the connection. -/
def getPending (s : Listener) (nonce : Bytes) : Option ℕ :=
  (s.nonceToPending.get? nonce).filter fun sock =>
    decide (sock ∈ s.registered ∨ sock ∈ socks s.batch)

/-- The listener with another state of a connection. -/
def setConn (s : Listener) (sock : ℕ) (pconn : PendingConn) : Listener :=
  { s with conns := Function.update s.conns sock pconn }

/-- `_accept`: the loop over the waiting connections, each with the answer of
`connection_ok` and what its peer sends. -/
def acceptAll (s : Listener) : List (Bool × Bytes) → Listener
  | [] => s
  | (true, stream) :: rest =>
    acceptAll
      { s with
        conns := Function.update s.conns s.next (.new stream)
        next := s.next + 1
        registered := insert s.next s.registered } rest
  | (false, _) :: rest => acceptAll s rest

/-- How a call of `_traffic` ends. -/
inductive Outcome where
  | nothing
  | paired (control data : ℕ)
  | raised (exception : Raised)
  deriving DecidableEq

/-- The handler of `_ConnectionClosed`. -/
def handleClosed (s : Listener) (sock : ℕ) : Outcome × Listener :=
  match s.unregister sock with
  | none => (.raised .keyError, s)
  | some s => (.nothing, { s with died := insert sock s.died })

/-- The branch of `_traffic` for a control connection. -/
def trafficControl (s : Listener) (sock : ℕ) (ready : Readiness) : Outcome × Listener :=
  let (sent, pconn) := (s.conns sock).sendNonce ready.send
  let s := s.setConn sock pconn
  if sent then (.nothing, { s with nonceToPending := s.nonceToPending.set pconn.nonce sock })
  else s.handleClosed sock

/-- The branch of `_traffic` for a data connection. -/
def trafficData (s : Listener) (sock : ℕ) (ready : Readiness) : Outcome × Listener :=
  match s.getPending (s.conns sock).nonce with
  | some control =>
    let (sent, pconn) := (s.conns sock).sendNonce ready.send
    let s := s.setConn sock pconn
    if sent then
      match s.unregister control with
      | none => (.raised .keyError, s)
      | some s =>
        match s.unregister sock with
        | none => (.raised .keyError, s)
        | some s => (.paired control sock, s)
    else s.handleClosed sock
  | none =>
    match s.unregister sock with
    | none => (.raised .keyError, s)
    | some s => (.nothing, s)

/-- `_traffic`. -/
def traffic (s : Listener) (sock : ℕ) (ready : Readiness) : Outcome × Listener :=
  let (result, pconn) := (s.conns sock).readNonce ready
  let s := s.setConn sock pconn
  match result with
  | .control => s.trafficControl sock ready
  | .data => s.trafficData sock ready
  | .later => (.nothing, s)
  | .connectionClosed => s.handleClosed sock
  | .socketError => (.raised .socketError, s)

/-- What the environment decides about a step of `accept`. -/
inductive Event where
  /-- `_poll.poll` returns, at the end of a batch. -/
  | poll (items : List Ready)
  /-- The loop handles a listening socket on which these connections wait. -/
  | accept (arrivals : List (Bool × Bytes))
  /-- The loop handles a connection. -/
  | traffic (ready : Readiness)

/-- One step of calls of `accept`, one after the other, until one of them raises. A poll
returns a registered descriptor at most once; the rest of a batch is dropped when a call
returns, and reported again by the next poll. -/
def step (s : Listener) (event : Event) : Option Listener :=
  if s.raised = none then
    match event, s.rest with
    | .poll items, [] =>
      if (socks items).Nodup ∧ ∀ sock ∈ socks items, sock ∈ s.registered then
        some { s with batch := items, rest := items }
      else none
    | .accept arrivals, .listening :: rest => some { s.acceptAll arrivals with rest := rest }
    | .traffic ready, .conn sock :: rest =>
      match s.traffic sock ready with
      | (.nothing, s) => some { s with rest := rest }
      | (.paired control data, s) => some
          { s with batch := [], rest := [], returned := s.returned ++ [(control, data)] }
      | (.raised exception, s) => some { s with batch := [], rest := [], raised := some exception }
    | _, _ => none
  else none

/-! ## What a readiness event does -/

/-- A control connection under its nonce. -/
def Pending (s : Listener) : Prop :=
  ∀ nonce sock, s.nonceToPending.get? nonce = some sock → sock < s.next ∧
    (sock ∈ s.registered → (s.conns sock).Waiting ∧ (s.conns sock).nonce = nonce)

/-- The events that raise: `recv` fails, or the nonce of a data connection leads to a
control connection that was dropped earlier in the same batch. -/
def Harmful (s : Listener) (sock : ℕ) (ready : Readiness) : Prop :=
  ((s.conns sock).nonce.length < nonceLen ∧ ready.recv = none) ∨
    (((s.conns sock).readNonce ready).1 = .data ∧ ready.send = .sent ∧
      ∃ control, s.nonceToPending.get? ((s.conns sock).readNonce ready).2.nonce = some control ∧
        control ∈ socks s.batch ∧ control ∉ s.registered)

/-- All that `_traffic` can do with a registered connection. -/
inductive Traffic (s : Listener) (sock : ℕ) (ready : Readiness) : Outcome → Listener → Prop
  /-- The nonce is still incomplete. -/
  | kept {pconn : PendingConn} (hbefore : (s.conns sock).Reading) (hread : pconn.Reading) :
      Traffic s sock ready .nothing (s.setConn sock pconn)
  /-- A control connection was answered. -/
  | answered {pconn : PendingConn} (hbefore : (s.conns sock).Reading)
      (hwaiting : pconn.Waiting) :
      Traffic s sock ready .nothing
        { s.setConn sock pconn with
          nonceToPending := s.nonceToPending.set pconn.nonce sock }
  /-- The connection was dropped. -/
  | dropped {pconn : PendingConn} {died : Finset ℕ}
      (hdied : died = s.died ∨ died = insert sock s.died) :
      Traffic s sock ready .nothing
        { s.setConn sock pconn with registered := s.registered.erase sock, died := died }
  /-- A data connection was paired. -/
  | paired {pconn : PendingConn} {control : ℕ}
      (hcontrol : s.nonceToPending.get? pconn.nonce = some control)
      (hregistered : control ∈ s.registered) (hne : control ≠ sock)
      (hsent : pconn.Sent pconn.nonce) (hanswered : pconn.outgoing = pconn.nonce) :
      Traffic s sock ready (.paired control sock)
        { s.setConn sock pconn with registered := (s.registered.erase control).erase sock }
  /-- An exception was raised. -/
  | raised {pconn : PendingConn} (exception : Raised) (hharmful : Harmful s sock ready) :
      Traffic s sock ready (.raised exception) (s.setConn sock pconn)

/-- Unregistering takes a socket out of the table. -/
theorem unregister_of_mem {s : Listener} {sock : ℕ} (h : sock ∈ s.registered) :
    s.unregister sock = some { s with registered := s.registered.erase sock } := if_pos h

/-- A socket that is not in the table cannot be unregistered. -/
theorem unregister_of_notMem {s : Listener} {sock : ℕ} (h : sock ∉ s.registered) :
    s.unregister sock = none := if_neg h

/-- A closed connection leaves the table and is never returned. -/
theorem handleClosed_eq {s : Listener} {sock : ℕ} (h : sock ∈ s.registered) :
    s.handleClosed sock = (.nothing,
      { s with registered := s.registered.erase sock, died := insert sock s.died }) := by
  simp only [handleClosed, unregister_of_mem h]

@[simp] theorem setConn_registered (s : Listener) (sock : ℕ) (pconn : PendingConn) :
    (s.setConn sock pconn).registered = s.registered := rfl

/-- What is set for a socket is what it has. -/
@[simp] theorem setConn_self (s : Listener) (sock : ℕ) (pconn : PendingConn) :
    (s.setConn sock pconn).conns sock = pconn := by
  simp [setConn]

/-- Of two settings for one socket the later counts. -/
@[simp] theorem setConn_setConn (s : Listener) (sock : ℕ) (pconn pconn' : PendingConn) :
    (s.setConn sock pconn).setConn sock pconn' = s.setConn sock pconn' := by
  simp [setConn]

/-- A control connection is answered and kept under its nonce, or it leaves the table, or an
exception is raised, in the order in which the socket lets the answer out. -/
theorem trafficControl_cases {s : Listener} {sock : ℕ} {ready : Readiness} {pconn : PendingConn}
    (hsock : sock ∈ s.registered) (hbefore : (s.conns sock).Reading)
    (hread : pconn.ReadsTo ready.random .control) :
    Traffic s sock ready ((s.setConn sock pconn).trafficControl sock ready).1
      ((s.setConn sock pconn).trafficControl sock ready).2 := by
  obtain ⟨hsent, hnonce, hsilent⟩ := hread
  cases hsend : ready.send with
  | sent =>
    have hwaiting : PendingConn.Waiting { pconn with outgoing := pconn.outgoing ++ pconn.nonce } := by
      refine ⟨hsent, ?_, ?_⟩
      · simp [hsilent]
      · rw [hnonce]
        exact ready.random.length
    simp only [trafficControl, setConn_self, hsend, PendingConn.sendNonce, if_true,
      setConn_setConn]
    exact Traffic.answered hbefore hwaiting
  | failed count =>
    simp only [trafficControl, setConn_self, hsend, PendingConn.sendNonce, Bool.false_eq_true,
      if_false, setConn_setConn]
    rw [handleClosed_eq (by simpa using hsock)]
    exact Traffic.dropped (Or.inr rfl)

/-- A visible control connection is in the dictionary. -/
theorem getPending_eq_some {s : Listener} {nonce : Bytes} {control : ℕ}
    (h : s.getPending nonce = some control) :
    s.nonceToPending.get? nonce = some control ∧
      (control ∈ s.registered ∨ control ∈ socks s.batch) := by
  obtain ⟨hget, hvisible⟩ := Option.filter_eq_some_iff.mp h
  exact ⟨hget, by simpa using hvisible⟩

/-- A data connection is paired with the control connection that waits for its nonce, or it leaves
the table, or an exception is raised. -/
theorem trafficData_cases {s : Listener} {sock : ℕ} (ready : Readiness) (hpending : s.Pending)
    (hsock : sock ∈ s.registered) (hreading : (s.conns sock).Reading)
    (hresult : ((s.conns sock).readNonce ready).1 = .data) :
    Traffic s sock ready
      ((s.setConn sock ((s.conns sock).readNonce ready).2).trafficData sock ready).1
      ((s.setConn sock ((s.conns sock).readNonce ready).2).trafficData sock ready).2 := by
  have hread := hreading.readNonce ready
  rw [hresult] at hread
  obtain ⟨hsent, _, hsilent⟩ := hread
  generalize hpconn : ((s.conns sock).readNonce ready).2 = pconn at hsent hsilent ⊢
  have hget : (s.setConn sock pconn).getPending pconn.nonce = s.getPending pconn.nonce := rfl
  simp only [trafficData, setConn_self, hget]
  cases hcontrol : s.getPending pconn.nonce with
  | none =>
    have hself : sock ∈ (s.setConn sock pconn).registered := hsock
    simp only [unregister_of_mem hself]
    exact Traffic.dropped (Or.inl rfl)
  | some control =>
    obtain ⟨hentry, hvisible⟩ := getPending_eq_some hcontrol
    cases hsend : ready.send with
    | failed count =>
      simp only [PendingConn.sendNonce, Bool.false_eq_true, if_false, setConn_setConn]
      rw [handleClosed_eq (by simpa using hsock)]
      exact Traffic.dropped (Or.inr rfl)
    | sent =>
      simp only [PendingConn.sendNonce, if_true, setConn_setConn]
      by_cases hregistered : control ∈ s.registered
      · have hne : control ≠ sock := by
          -- a control connection has a complete nonce, this one had not
          intro heq
          have hlength := ((hpending _ control hentry).2 hregistered).1.length
          have hshort := hreading.short
          rw [heq] at hlength
          omega
        have hsock' : sock ∈ s.registered.erase control :=
          Finset.mem_erase.mpr ⟨Ne.symm hne, hsock⟩
        have hcontrol' : control ∈ (s.setConn sock
            { pconn with outgoing := pconn.outgoing ++ pconn.nonce }).registered := hregistered
        simp only [unregister_of_mem hcontrol']
        rw [unregister_of_mem hsock']
        have hanswered : ({ pconn with outgoing := pconn.outgoing ++ pconn.nonce } :
            PendingConn).outgoing = pconn.nonce := by simp [hsilent]
        exact Traffic.paired hentry hregistered hne hsent hanswered
      · have hbatch := hvisible.resolve_left hregistered
        have hcontrol' : control ∉ (s.setConn sock
            { pconn with outgoing := pconn.outgoing ++ pconn.nonce }).registered := hregistered
        simp only [unregister_of_notMem hcontrol']
        refine Traffic.raised .keyError (Or.inr ⟨hresult, hsend, control, ?_, hbatch, hregistered⟩)
        rw [hpconn]
        exact hentry

/-- A registered connection is in one of the two phases. -/
def Phases (s : Listener) : Prop :=
  ∀ sock ∈ s.registered, sock < s.next ∧ ((s.conns sock).Reading ∨ (s.conns sock).Waiting)

/-- All that traffic on a connection can do, whatever the sockets deliver or refuse at that moment.
The invariants are derived from these cases. -/
theorem traffic_cases {s : Listener} {sock : ℕ} (hpending : s.Pending) (hphases : s.Phases)
    (hsock : sock ∈ s.registered) (ready : Readiness) :
    Traffic s sock ready (s.traffic sock ready).1 (s.traffic sock ready).2 := by
  rcases (hphases sock hsock).2 with hreading | hwaiting
  · have hread := hreading.readNonce ready
    have hdata := trafficData_cases ready hpending hsock hreading
    simp only [traffic]
    rcases hresult : (s.conns sock).readNonce ready with ⟨result, pconn⟩
    rw [hresult] at hread hdata
    cases result with
    | control => exact trafficControl_cases hsock hreading hread
    | data => exact hdata rfl
    | later => exact Traffic.kept hreading hread
    | connectionClosed =>
      dsimp only
      rw [handleClosed_eq (by simpa using hsock)]
      exact Traffic.dropped (Or.inr rfl)
    | socketError =>
      refine Traffic.raised .socketError (Or.inl ⟨hreading.short, ?_⟩)
      by_contra hrecv
      obtain ⟨size, hsize⟩ := Option.ne_none_iff_exists'.mp hrecv
      have hfst := congrArg Prod.fst hresult
      simp only [PendingConn.readNonce, if_pos hreading.short, hsize] at hfst
      split at hfst
      · cases hfst
      · split at hfst
        · split at hfst <;> cases hfst
        · cases hfst
  · simp only [traffic, hwaiting.readNonce ready]
    rw [handleClosed_eq (by simpa using hsock)]
    exact Traffic.dropped (Or.inr rfl)

/-! ## Correct pairs -/

/-- The sockets that were handed out. -/
def returnedSocks (s : Listener) : List ℕ := s.returned.flatMap fun pair => [pair.1, pair.2]

/-- The control connection sent null bytes first and was answered with a nonce, which the
data connection sent first and was answered with; nothing else was read. -/
structure PairCorrect (control data : PendingConn) : Prop where
  /-- What the control connection sent. -/
  controlSent : control.Sent nullNonce
  /-- Its answer is a nonce. -/
  nonce : control.outgoing.length = nonceLen
  /-- What the data connection sent. -/
  dataSent : data.Sent control.outgoing
  /-- Its answer. -/
  dataAnswered : data.outgoing = control.outgoing

/-- The pairs returned so far. -/
structure Sound (s : Listener) : Prop where
  /-- The handshake of every pair. -/
  correct : ∀ pair ∈ s.returned, PairCorrect (s.conns pair.1) (s.conns pair.2)
  /-- No socket is in two pairs, or twice in one. -/
  once : s.returnedSocks.Nodup
  /-- No control connection was reported closed. -/
  alive : ∀ pair ∈ s.returned, pair.1 ∉ s.died

/-- The tables of a listener that goes on. -/
structure Live (s : Listener) : Prop where
  /-- The registered connections. -/
  phases : s.Phases
  /-- The control connections among them. -/
  pending : s.Pending
  /-- The batch holds registered connections. -/
  items : ∀ sock ∈ socks s.rest, sock ∈ s.registered
  /-- It holds each of them once. -/
  nodup : (socks s.rest).Nodup
  /-- Connections that were reported closed are not registered any more. -/
  died : ∀ sock ∈ s.died, sock < s.next ∧ sock ∉ s.registered
  /-- Nor are those that were handed out. -/
  gone : ∀ sock ∈ s.returnedSocks, sock < s.next ∧ sock ∉ s.registered

/-- What every state reached satisfies. -/
def Inv (s : Listener) : Prop := s.Sound ∧ (s.raised = none → s.Live)

/-- Both sockets of a returned pair are among those returned. -/
theorem mem_returnedSocks {s : Listener} {pair : ℕ × ℕ} (h : pair ∈ s.returned) :
    pair.1 ∈ s.returnedSocks ∧ pair.2 ∈ s.returnedSocks := by
  constructor <;> exact List.mem_flatMap.mpr ⟨pair, h, by simp⟩

/-- A connection that was not handed out may change. -/
theorem Sound.setConn {s : Listener} (h : s.Sound) {sock : ℕ} (hsock : sock ∉ s.returnedSocks)
    (pconn : PendingConn) : (s.setConn sock pconn).Sound := by
  refine ⟨?_, h.once, h.alive⟩
  intro pair hpair
  obtain ⟨hfirst, hsecond⟩ := mem_returnedSocks hpair
  have hne₁ : pair.1 ≠ sock := fun heq => hsock (heq ▸ hfirst)
  have hne₂ : pair.2 ≠ sock := fun heq => hsock (heq ▸ hsecond)
  have hcorrect := h.correct pair hpair
  simp only [Listener.setConn, Function.update_of_ne hne₁, Function.update_of_ne hne₂]
  exact hcorrect

/-- A new connection is registered. -/
theorem Live.register {s : Listener} (h : s.Live) (stream : Bytes) :
    Live { s with
      conns := Function.update s.conns s.next (.new stream)
      next := s.next + 1
      registered := insert s.next s.registered } := by
  have hfresh : s.next ∉ s.registered := by
    intro hmem
    have hlt := (h.phases s.next hmem).1
    omega
  refine ⟨?_, ?_, ?_, h.nodup, ?_, ?_⟩
  · intro sock hsock
    dsimp only
    rcases Finset.mem_insert.mp hsock with rfl | hsock
    · rw [Function.update_self]
      exact ⟨Nat.lt_succ_self _, Or.inl (PendingConn.reading_new stream)⟩
    · have hne : sock ≠ s.next := fun heq => hfresh (heq ▸ hsock)
      rw [Function.update_of_ne hne]
      obtain ⟨hlt, hphase⟩ := h.phases sock hsock
      exact ⟨by omega, hphase⟩
  · intro nonce sock hget
    obtain ⟨hlt, hwaiting⟩ := h.pending nonce sock hget
    refine ⟨by dsimp only; omega, ?_⟩
    intro hmem
    have hne : sock ≠ s.next := by omega
    have hsock : sock ∈ s.registered := (Finset.mem_insert.mp hmem).resolve_left hne
    simp only [Function.update_of_ne hne]
    exact hwaiting hsock
  · intro sock hsock
    exact Finset.mem_insert_of_mem (h.items sock hsock)
  · intro sock hsock
    obtain ⟨hlt, hnot⟩ := h.died sock hsock
    refine ⟨by dsimp only; omega, ?_⟩
    intro hmem
    rcases Finset.mem_insert.mp hmem with heq | hmem
    · omega
    · exact hnot hmem
  · intro sock hsock
    obtain ⟨hlt, hnot⟩ := h.gone sock hsock
    refine ⟨by dsimp only; omega, ?_⟩
    intro hmem
    rcases Finset.mem_insert.mp hmem with heq | hmem
    · omega
    · exact hnot hmem

/-- Accepting connections keeps the invariant and the batch. -/
theorem acceptAll_live (arrivals : List (Bool × Bytes)) {s : Listener} (hsound : s.Sound)
    (hlive : s.Live) :
    (s.acceptAll arrivals).Sound ∧ (s.acceptAll arrivals).Live ∧
      (s.acceptAll arrivals).rest = s.rest ∧ (s.acceptAll arrivals).raised = s.raised := by
  induction arrivals generalizing s with
  | nil => exact ⟨hsound, hlive, rfl, rfl⟩
  | cons arrival rest ih =>
    rcases arrival with ⟨allowed, stream⟩
    cases allowed with
    | false => exact ih hsound hlive
    | true =>
      have hnext : s.next ∉ s.returnedSocks := by
        intro hmem
        have hlt := (hlive.gone s.next hmem).1
        omega
      have hset := hsound.setConn hnext (.new stream)
      have hsound' : Sound { s with
          conns := Function.update s.conns s.next (.new stream)
          next := s.next + 1
          registered := insert s.next s.registered } := ⟨hset.correct, hset.once, hset.alive⟩
      exact ih hsound' (hlive.register stream)

/-- The rest of a batch after the connection at its head. -/
theorem Live.tail {s : Listener} (h : s.Live) {sock : ℕ} {rest : List Ready}
    (hrest : s.rest = .conn sock :: rest) :
    sock ∈ s.registered ∧ (socks rest).Nodup ∧
      ∀ other ∈ socks rest, other ∈ s.registered ∧ other ≠ sock := by
  have hitems := h.items
  have hnodup := h.nodup
  rw [hrest, socks] at hitems hnodup
  obtain ⟨hfresh, hnodup⟩ := List.nodup_cons.mp hnodup
  refine ⟨hitems sock List.mem_cons_self, hnodup, ?_⟩
  intro other hother
  refine ⟨hitems other (List.mem_cons_of_mem _ hother), ?_⟩
  intro heq
  exact hfresh (heq ▸ hother)

/-- A connection goes on with its handshake: it is read, or answered and entered. -/
theorem Live.advance {s : Listener} (h : s.Live) {sock : ℕ} {rest : List Ready}
    (hrest : s.rest = .conn sock :: rest) (hbefore : (s.conns sock).Reading)
    {pconn : PendingConn} (hphase : pconn.Reading ∨ pconn.Waiting)
    {pendings : Dict Bytes ℕ}
    (hpendings : ∀ nonce other, pendings.get? nonce = some other →
      s.nonceToPending.get? nonce = some other ∨
        (other = sock ∧ pconn.Waiting ∧ pconn.nonce = nonce)) :
    Live { s.setConn sock pconn with nonceToPending := pendings, rest := rest } := by
  obtain ⟨hsock, hnodup, htail⟩ := h.tail hrest
  refine ⟨?_, ?_, fun other hother => (htail other hother).1, hnodup, h.died, h.gone⟩
  · intro other hother
    refine ⟨(h.phases other hother).1, ?_⟩
    simp only [setConn]
    by_cases heq : other = sock
    · rw [heq, Function.update_self]
      exact hphase
    · rw [Function.update_of_ne heq]
      exact (h.phases other hother).2
  · intro nonce other hget
    simp only [setConn]
    rcases hpendings nonce other hget with hold | ⟨rfl, hwaiting, hnonce⟩
    · obtain ⟨hlt, hwaiting⟩ := h.pending nonce other hold
      refine ⟨hlt, ?_⟩
      intro hmem
      have hne : other ≠ sock := by
        intro heq
        have hlength := (hwaiting hmem).1.length
        have hshort := hbefore.short
        rw [heq] at hlength
        omega
      rw [Function.update_of_ne hne]
      exact hwaiting hmem
    · refine ⟨(h.phases other hsock).1, ?_⟩
      intro _
      rw [Function.update_self]
      exact ⟨hwaiting, hnonce⟩

/-- Connections leave the table, the one at the head of the batch among them. -/
theorem Live.leave {s : Listener} (h : s.Live) {sock : ℕ} {pconn : PendingConn}
    {registered died : Finset ℕ} {batch rest : List Ready} {returned : List (ℕ × ℕ)}
    (hsub : registered ⊆ s.registered.erase sock)
    (hitems : ∀ other ∈ socks rest, other ∈ registered) (hnodup : (socks rest).Nodup)
    (hdied : ∀ other ∈ died, other ∈ s.died ∨ other ∈ s.registered ∧ other ∉ registered)
    (hgone : ∀ other ∈ returned.flatMap (fun pair => [pair.1, pair.2]),
      other ∈ s.returnedSocks ∨ other ∈ s.registered ∧ other ∉ registered) :
    Live { s.setConn sock pconn with
      registered := registered, batch := batch, rest := rest, died := died
      returned := returned } := by
  -- a connection outside the table stays outside
  have hout : ∀ other, other < s.next ∧ other ∉ s.registered ∨
      other ∈ s.registered ∧ other ∉ registered → other < s.next ∧ other ∉ registered := by
    rintro other (⟨hlt, hnot⟩ | ⟨hmem, hnot⟩)
    · exact ⟨hlt, fun hin => hnot (Finset.mem_of_mem_erase (hsub hin))⟩
    · exact ⟨(h.phases other hmem).1, hnot⟩
  refine ⟨?_, ?_, hitems, hnodup,
    fun other hother => hout other ((hdied other hother).imp_left (h.died other)),
    fun other hother => hout other ((hgone other hother).imp_left (h.gone other))⟩
  · intro other hother
    obtain ⟨hne, hmem⟩ := Finset.mem_erase.mp (hsub hother)
    simp only [setConn, Function.update_of_ne hne]
    exact h.phases other hmem
  · intro nonce other hget
    obtain ⟨hlt, hwaiting⟩ := h.pending nonce other hget
    refine ⟨hlt, ?_⟩
    intro hmem
    obtain ⟨hne, hmem'⟩ := Finset.mem_erase.mp (hsub hmem)
    simp only [setConn, Function.update_of_ne hne]
    exact hwaiting hmem'

/-- A pair is handed out: the control connection has waited for it. -/
theorem Sound.pair {s : Listener} (h : s.Sound) (hlive : s.Live) {sock control : ℕ}
    (hsock : sock ∈ s.registered) {pconn : PendingConn}
    (hcontrol : s.nonceToPending.get? pconn.nonce = some control)
    (hregistered : control ∈ s.registered) (hne : control ≠ sock)
    (hsent : pconn.Sent pconn.nonce) (hanswered : pconn.outgoing = pconn.nonce)
    {registered : Finset ℕ} :
    Sound { s.setConn sock pconn with
      registered := registered, batch := [], rest := []
      returned := s.returned ++ [(control, sock)] } := by
  have hnew : ∀ other ∈ s.registered, other ∉ s.returnedSocks :=
    fun other hother hmem => (hlive.gone other hmem).2 hother
  have hset := h.setConn (hnew sock hsock) pconn
  have hsplit : (s.returned ++ [(control, sock)]).flatMap (fun pair => [pair.1, pair.2]) =
      s.returnedSocks ++ [control, sock] := by
    rw [List.flatMap_append]
    rfl
  refine ⟨?_, ?_, ?_⟩
  · intro pair hpair
    rcases List.mem_append.mp hpair with hold | hlast
    · exact hset.correct pair hold
    · obtain ⟨hwaiting, hnonce⟩ := (hlive.pending _ control hcontrol).2 hregistered
      have houtgoing : (s.conns control).outgoing = pconn.nonce :=
        hwaiting.answered.trans hnonce
      rw [List.mem_singleton.mp hlast]
      simp only [Listener.setConn, Function.update_of_ne hne, Function.update_self]
      refine ⟨hwaiting.sent, ?_, ?_, ?_⟩
      · rw [hwaiting.answered]
        exact hwaiting.length
      · rw [houtgoing]
        exact hsent
      · rw [houtgoing, hanswered]
  · show ((s.returned ++ [(control, sock)]).flatMap (fun pair => [pair.1, pair.2])).Nodup
    rw [hsplit, List.nodup_append]
    refine ⟨h.once, by simpa using hne, ?_⟩
    intro other hother last hlast heq
    rw [List.mem_cons, List.mem_singleton] at hlast
    rcases hlast with rfl | rfl
    · exact hnew last hregistered (heq ▸ hother)
    · exact hnew last hsock (heq ▸ hother)
  · intro pair hpair
    rcases List.mem_append.mp hpair with hold | hlast
    · exact h.alive pair hold
    · rw [List.mem_singleton.mp hlast]
      intro hdied
      exact (hlive.died control hdied).2 hregistered

/-- Handling one connection keeps the invariant; here the cases of its traffic are gone through
once. -/
theorem traffic_inv {s next : Listener} {ready : Readiness} {sock : ℕ} {rest : List Ready}
    (hsound : s.Sound) (hlive : s.Live) (hraised : s.raised = none)
    (hrest : s.rest = .conn sock :: rest) (hstep : s.step (.traffic ready) = some next) :
    next.Inv := by
  obtain ⟨hsock, hnodup, htail⟩ := hlive.tail hrest
  have hnew : sock ∉ s.returnedSocks := fun hmem => (hlive.gone sock hmem).2 hsock
  have hkept : ∀ other ∈ socks rest, other ∈ s.registered.erase sock :=
    fun other hother => Finset.mem_erase.mpr ⟨(htail other hother).2, (htail other hother).1⟩
  have hcases := traffic_cases hlive.pending hlive.phases hsock ready
  simp only [step, hraised, if_true, hrest] at hstep
  rcases hresult : s.traffic sock ready with ⟨outcome, after⟩
  rw [hresult] at hcases hstep
  cases hcases with
  | @kept pconn hbefore hread =>
    cases hstep
    have hset := hsound.setConn hnew pconn
    exact ⟨⟨hset.correct, hset.once, hset.alive⟩,
      fun _ => hlive.advance hrest hbefore (Or.inl hread) fun _ _ hget => Or.inl hget⟩
  | @answered pconn hbefore hwaiting =>
    cases hstep
    have hset := hsound.setConn hnew pconn
    refine ⟨⟨hset.correct, hset.once, hset.alive⟩, fun _ => ?_⟩
    apply hlive.advance hrest hbefore (Or.inr hwaiting)
    intro nonce other hget
    rw [Dict.get?_set] at hget
    split at hget
    · rename_i heq
      cases hget
      exact Or.inr ⟨rfl, hwaiting, heq⟩
    · exact Or.inl hget
  | @dropped pconn died hdied =>
    cases hstep
    have hset := hsound.setConn hnew pconn
    have hmem : ∀ other ∈ died, other = sock ∨ other ∈ s.died := by
      intro other hother
      rcases hdied with rfl | rfl
      · exact Or.inr hother
      · exact Finset.mem_insert.mp hother
    refine ⟨⟨hset.correct, hset.once, ?_⟩, fun _ => ?_⟩
    · intro pair hpair hdead
      rcases hmem pair.1 hdead with heq | hold
      · exact hnew (heq ▸ (mem_returnedSocks hpair).1)
      · exact hsound.alive pair hpair hold
    · apply hlive.leave (Finset.Subset.refl _) hkept hnodup
      · intro other hother
        rcases hmem other hother with rfl | hold
        · exact Or.inr ⟨hsock, Finset.notMem_erase other _⟩
        · exact Or.inl hold
      · exact fun other hother => Or.inl hother
  | @paired pconn control hcontrol hregistered hne hsent hanswered =>
    cases hstep
    refine ⟨hsound.pair hlive hsock hcontrol hregistered hne hsent hanswered, fun _ => ?_⟩
    apply hlive.leave (Finset.erase_subset_erase sock (Finset.erase_subset control _))
    · intro other hother
      cases hother
    · exact List.nodup_nil
    · exact fun other hother => Or.inl hother
    · intro other hother
      rw [List.flatMap_append, List.mem_append] at hother
      rcases hother with hold | hlast
      · exact Or.inl hold
      · rw [List.flatMap_singleton, List.mem_cons, List.mem_singleton] at hlast
        rcases hlast with rfl | rfl
        · refine Or.inr ⟨hregistered, ?_⟩
          intro h
          exact Finset.notMem_erase other _ (Finset.mem_of_mem_erase h)
        · exact Or.inr ⟨hsock, Finset.notMem_erase other _⟩
  | @raised pconn exception hharmful =>
    cases hstep
    have hset := hsound.setConn hnew pconn
    refine ⟨⟨hset.correct, hset.once, hset.alive⟩, ?_⟩
    intro hnone
    cases hnone

/-- The three kinds of steps, each at its item of the batch. -/
inductive Stepped (s : Listener) : Event → Listener → Prop
  /-- A new batch. -/
  | poll {items : List Ready} (hnodup : (socks items).Nodup)
      (hitems : ∀ sock ∈ socks items, sock ∈ s.registered) :
      Stepped s (.poll items) { s with batch := items, rest := items }
  /-- New connections. -/
  | accept {arrivals : List (Bool × Bytes)} {rest : List Ready}
      (hrest : s.rest = .listening :: rest) :
      Stepped s (.accept arrivals) { s.acceptAll arrivals with rest := rest }
  /-- A connection that is ready. -/
  | traffic {ready : Readiness} {sock : ℕ} {rest : List Ready} {next : Listener}
      (hrest : s.rest = .conn sock :: rest) : Stepped s (.traffic ready) next

/-- A step is one of the three kinds, and comes before any exception. -/
theorem stepped_of_step {s next : Listener} {event : Event} (h : s.step event = some next) :
    s.raised = none ∧ Stepped s event next := by
  have hraised : s.raised = none := by
    by_contra hne
    simp [step, hne] at h
  refine ⟨hraised, ?_⟩
  cases event with
  | poll items =>
    cases hrest : s.rest with
    | nil =>
      simp only [step, if_pos hraised, hrest] at h
      split at h
      · rename_i hready
        cases h
        exact .poll hready.1 hready.2
      · cases h
    | cons item rest => simp [step, hraised, hrest] at h
  | accept arrivals =>
    cases hrest : s.rest with
    | nil => simp [step, hraised, hrest] at h
    | cons item rest =>
      cases item with
      | conn sock => simp [step, hraised, hrest] at h
      | listening =>
        simp only [step, if_pos hraised, hrest] at h
        cases h
        exact .accept hrest
  | traffic ready =>
    cases hrest : s.rest with
    | nil => simp [step, hraised, hrest] at h
    | cons item rest =>
      cases item with
      | listening => simp [step, hraised, hrest] at h
      | conn sock => exact .traffic hrest

/-- Every step keeps the invariant: the polls, the new connections and the traffic. -/
theorem step_inv (s : Listener) (event : Event) (next : Listener) (h : s.Inv)
    (hstep : s.step event = some next) : next.Inv := by
  obtain ⟨hraised, hcases⟩ := stepped_of_step hstep
  obtain ⟨hsound, hlive⟩ := h
  have hlive := hlive hraised
  cases hcases with
  | poll hnodup hitems =>
    exact ⟨⟨hsound.correct, hsound.once, hsound.alive⟩, fun _ =>
      ⟨hlive.phases, hlive.pending, hitems, hnodup, hlive.died, hlive.gone⟩⟩
  | @accept arrivals rest hrest =>
    obtain ⟨hsound', hlive', hrest', _⟩ := acceptAll_live arrivals hsound hlive
    have hitems := hlive'.items
    have hnodup := hlive'.nodup
    rw [hrest', hrest, socks] at hitems hnodup
    exact ⟨⟨hsound'.correct, hsound'.once, hsound'.alive⟩, fun _ =>
      ⟨hlive'.phases, hlive'.pending, hitems, hnodup, hlive'.died, hlive'.gone⟩⟩
  | traffic hrest => exact traffic_inv hsound hlive hraised hrest hstep

/-- A new listener has no connections and has returned none. -/
theorem inv_new : new.Inv := by
  refine ⟨⟨?_, List.nodup_nil, ?_⟩, fun _ => ⟨?_, ?_, ?_, List.nodup_nil, ?_, ?_⟩⟩
  all_goals simp [new, Phases, Pending, socks, returnedSocks]

/-- Whatever the connections send, however it arrives and whichever calls fail: every pair
that `accept` has returned went through its handshake, with exactly sixteen bytes read from
each side; no socket was returned twice, and no control connection after it was reported
closed. -/
theorem accept_pairs_correct {events : List Event} {s : Listener}
    (hrun : exec step new events = some s) :
    (∀ pair ∈ s.returned, PairCorrect (s.conns pair.1) (s.conns pair.2)) ∧
      s.returnedSocks.Nodup ∧ ∀ pair ∈ s.returned, pair.1 ∉ s.died := by
  obtain ⟨hsound, _⟩ := exec_invariant step_inv inv_new hrun
  exact ⟨hsound.correct, hsound.once, hsound.alive⟩

/-- A nonce of sixteen sevens. -/
def sevens : Random := ⟨List.replicate 16 7, rfl⟩

/-- Two connections arrive; the first is answered while half of the nonce of the second has
come in. -/
def samplePairing : List Event :=
  [.poll [.listening], .accept [(true, nullNonce), (true, sevens.bytes)],
    .poll [.conn 0, .conn 1], .traffic ⟨some 15, sevens, .sent⟩, .traffic ⟨some 7, sevens, .sent⟩,
    .poll [.conn 1], .traffic ⟨some 15, sevens, .sent⟩]

/-- Two connections with one nonce are returned as a pair. -/
theorem accept_pairs_correct_sample :
    ∃ s, exec step new samplePairing = some s ∧ s.returned = [(0, 1)] ∧
      PairCorrect (s.conns 0) (s.conns 1) := by
  obtain ⟨s, hrun, hreturned⟩ : ∃ s, exec step new samplePairing = some s ∧
      s.returned = [(0, 1)] := ⟨_, rfl, rfl⟩
  have hcorrect := (accept_pairs_correct hrun).1 (0, 1) (by simp [hreturned])
  exact ⟨s, hrun, hreturned, hcorrect⟩

/-! ## Exceptions -/

/-- No exception, and no connection but the one that is handled changes; only that one and
the two of a pair leave the table. -/
def Survives (s : Listener) (event : Event) : Prop :=
  ∀ next, s.step event = some next → next.raised = none ∧
    ∀ other ∈ s.registered, s.rest.head? ≠ some (.conn other) →
      next.conns other = s.conns other ∧
        (other ∈ next.registered ∨ other ∈ next.returnedSocks)

/-- The event does not raise. -/
def Harmless (s : Listener) : Event → Prop
  | .traffic ready => ∀ sock, s.rest.head? = some (.conn sock) → ¬Harmful s sock ready
  | _ => True

/-- The harmful events do raise. -/
theorem traffic_of_harmful {s : Listener} {sock : ℕ} {ready : Readiness}
    (h : Harmful s sock ready) : ∃ exception, (s.traffic sock ready).1 = .raised exception := by
  rcases h with ⟨hshort, hrecv⟩ | ⟨hdata, hsend, control, hentry, hbatch, hregistered⟩
  · have hread : (s.conns sock).readNonce ready = (.socketError, s.conns sock) := by
      simp only [PendingConn.readNonce, if_pos hshort, hrecv]
    refine ⟨.socketError, ?_⟩
    simp only [traffic, hread]
  · rcases hread : (s.conns sock).readNonce ready with ⟨result, pconn⟩
    rw [hread] at hdata hentry
    cases hdata
    have hget : (s.setConn sock pconn).getPending pconn.nonce = some control := by
      have hentry' : (s.setConn sock pconn).nonceToPending.get? pconn.nonce = some control :=
        hentry
      rw [getPending, hentry', Option.filter_some, if_pos]
      exact decide_eq_true (Or.inr hbatch)
    have hcontrol' : control ∉ (s.setConn sock
        { pconn with outgoing := pconn.outgoing ++ pconn.nonce }).registered := hregistered
    refine ⟨.keyError, ?_⟩
    simp only [traffic, hread, trafficData, setConn_self, hget, hsend, PendingConn.sendNonce,
      if_true, setConn_setConn, unregister_of_notMem hcontrol']

/-- New connections leave those that are there alone. -/
theorem acceptAll_frame (arrivals : List (Bool × Bytes)) {s : Listener} {sock : ℕ}
    (hsock : sock ∈ s.registered) (hlt : sock < s.next) :
    (s.acceptAll arrivals).conns sock = s.conns sock ∧
      sock ∈ (s.acceptAll arrivals).registered := by
  induction arrivals generalizing s with
  | nil => exact ⟨rfl, hsock⟩
  | cons arrival rest ih =>
    rcases arrival with ⟨allowed, stream⟩
    cases allowed with
    | false => exact ih hsock hlt
    | true =>
      have hne : sock ≠ s.next := by omega
      obtain ⟨hconn, hmem⟩ := ih
        (s := { s with
          conns := Function.update s.conns s.next (.new stream)
          next := s.next + 1
          registered := insert s.next s.registered })
        (Finset.mem_insert_of_mem hsock) (Nat.lt_succ_of_lt hlt)
      refine ⟨?_, hmem⟩
      rw [acceptAll, hconn]
      exact Function.update_of_ne hne _ _

/-- A connection that is neither handled nor paired stays as it is. -/
theorem setConn_frame {s : Listener} {sock other : ℕ} (hne : other ≠ sock) (pconn : PendingConn) :
    (s.setConn sock pconn).conns other = s.conns other := Function.update_of_ne hne _ _

/-- Handling a connection is survived by the listener and by all other connections exactly when the
event is harmless. -/
theorem survives_traffic_iff {s next : Listener} {ready : Readiness} {sock : ℕ}
    {rest : List Ready} (hlive : s.Live) (hraised : s.raised = none)
    (hrest : s.rest = .conn sock :: rest) (hstep : s.step (.traffic ready) = some next) :
    s.Survives (.traffic ready) ↔ ¬Harmful s sock ready := by
  have hsock := (hlive.tail hrest).1
  have hcases := traffic_cases hlive.pending hlive.phases hsock ready
  have hstep' := hstep
  simp only [step, hraised, if_true, hrest] at hstep'
  constructor
  · intro hsurvives hharmful
    obtain ⟨exception, hexception⟩ := traffic_of_harmful hharmful
    rcases hresult : s.traffic sock ready with ⟨outcome, after⟩
    rw [hresult] at hexception hstep'
    cases hexception
    cases hstep'
    have hnone := (hsurvives _ hstep).1
    cases hnone
  · intro hharmless after hafter
    cases hstep.symm.trans hafter
    have hother : ∀ other, s.rest.head? ≠ some (.conn other) → other ≠ sock := by
      intro other hhead heq
      rw [heq, hrest] at hhead
      exact hhead rfl
    rcases hresult : s.traffic sock ready with ⟨outcome, after⟩
    rw [hresult] at hcases hstep'
    cases hcases with
    | kept hbefore hread =>
      cases hstep'
      refine ⟨hraised, fun other hmem hhead => ⟨setConn_frame (hother other hhead) _, ?_⟩⟩
      exact Or.inl hmem
    | answered hbefore hwaiting =>
      cases hstep'
      refine ⟨hraised, fun other hmem hhead => ⟨setConn_frame (hother other hhead) _, ?_⟩⟩
      exact Or.inl hmem
    | dropped hdied =>
      cases hstep'
      refine ⟨hraised, fun other hmem hhead => ⟨setConn_frame (hother other hhead) _, ?_⟩⟩
      exact Or.inl (Finset.mem_erase.mpr ⟨hother other hhead, hmem⟩)
    | @paired pconn control hcontrol hregistered hne hsent hanswered =>
      cases hstep'
      refine ⟨hraised, fun other hmem hhead => ⟨setConn_frame (hother other hhead) _, ?_⟩⟩
      by_cases hpair : other = control
      · refine Or.inr ?_
        have hlast : (control, sock) ∈ s.returned ++ [(control, sock)] := by simp
        exact List.mem_flatMap.mpr ⟨_, hlast, by simp [hpair]⟩
      · exact Or.inl (Finset.mem_erase.mpr
          ⟨hother other hhead, Finset.mem_erase.mpr ⟨hpair, hmem⟩⟩)
    | raised exception hharmful => exact absurd hharmful hharmless

/-- A step is survived exactly when it is harmless; only traffic can do harm. -/
theorem survives_iff (s : Listener) (event : Event) (next : Listener) (h : s.Inv)
    (hstep : s.step event = some next) : s.Survives event ↔ s.Harmless event := by
  obtain ⟨hraised, hcases⟩ := stepped_of_step hstep
  have hlive := h.2 hraised
  cases hcases with
  | poll hnodup hitems =>
    refine iff_of_true ?_ trivial
    intro after hafter
    cases hstep.symm.trans hafter
    exact ⟨hraised, fun other hmem _ => ⟨rfl, Or.inl hmem⟩⟩
  | @accept arrivals rest hrest =>
    refine iff_of_true ?_ trivial
    intro after hafter
    cases hstep.symm.trans hafter
    obtain ⟨_, _, _, hraised'⟩ := acceptAll_live arrivals h.1 hlive
    refine ⟨hraised'.trans hraised, fun other hmem _ => ?_⟩
    obtain ⟨hconn, hregistered⟩ := acceptAll_frame arrivals hmem (hlive.phases other hmem).1
    exact ⟨hconn, Or.inl hregistered⟩
  | traffic hrest =>
    rw [survives_traffic_iff hlive hraised hrest hstep, Harmless, hrest]
    simp

/-- `accept` raises no exception and serves all other connections, step after step, exactly
when no `recv` fails on a connection in the handshake and no data connection completes the
nonce of a control connection that was dropped earlier in the same batch. -/
theorem accept_survives_iff {events : List Event} {s : Listener}
    (hrun : exec step new events = some s) :
    Guarded step Survives new events ↔ Guarded step Harmless new events :=
  guarded_iff_of_exec step_inv survives_iff inv_new hrun

/-- A connection is closed before it has sent its nonce. -/
def sampleClose : List Event :=
  [.poll [.listening], .accept [(true, [])], .poll [.conn 0], .traffic ⟨some 0, sevens, .sent⟩]

/-- A connection that is closed before its nonce is complete does no harm to the listener. -/
theorem accept_survives_close : Guarded step Survives new sampleClose := by
  obtain ⟨s, hrun⟩ : ∃ s, exec step new sampleClose = some s := ⟨_, rfl⟩
  refine (accept_survives_iff hrun).mpr (guarded_cons trivial rfl (guarded_cons trivial rfl
    (guarded_cons trivial rfl (guarded_cons ?_ rfl trivial))))
  intro sock hsock hharmful
  cases hsock
  rcases hharmful with ⟨_, hrecv⟩ | ⟨hdata, _⟩
  · cases hrecv
  · exact absurd hdata (by decide)

/-- A connection is reset before it has sent its nonce. -/
def sampleReset : List Event :=
  [.poll [.listening], .accept [(true, [])], .poll [.conn 0], .traffic ⟨none, sevens, .sent⟩]

/-- A connection that is reset at the same point raises an exception out of `accept`. -/
theorem reset_raises : ¬Guarded step Survives new sampleReset := by
  intro h
  have hlast := (((h.2 _ rfl).2 _ rfl).2 _ rfl).1 _ rfl
  exact absurd hlast.1 (by decide)

end Listener

end OpenDiamond.Listen
