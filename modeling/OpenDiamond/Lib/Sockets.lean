import Mathlib.Data.List.Basic
import Mathlib.Data.Nat.Init

/-!
# Stream sockets that deliver in arbitrary chunks

A socket holds the bytes that its peer has sent and that have not been received. How
many of them one receive call returns is decided by an arbitrary schedule: at least one
while any are left, at most what was asked for. Reading an exact count loops over the
calls and does not depend on the schedule.
-/

namespace OpenDiamond.Lib.Sockets

/-- One end of a connection. -/
structure Socket where
  /-- Bytes on their way from the peer, the next one first. -/
  incoming : List UInt8
  /-- How many bytes beyond the first each of the coming receive calls may return. -/
  schedule : ℕ → ℕ
  /-- Bytes handed over for the peer. -/
  outgoing : List UInt8
  /-- The socket was closed on this end. -/
  closed : Bool

namespace Socket

/-- Receive some bytes, none only when nothing is left. -/
def recv (sock : Socket) (count : ℕ) : List UInt8 × Socket :=
  let size := min (min count sock.incoming.length) (sock.schedule 0 + 1)
  (sock.incoming.take size,
    { sock with incoming := sock.incoming.drop size, schedule := fun n => sock.schedule (n + 1) })

/-- Hand bytes over for the peer. -/
def sendAll (sock : Socket) (data : List UInt8) : Socket :=
  { sock with outgoing := sock.outgoing ++ data }

/-- Close this end. -/
def close (sock : Socket) : Socket := { sock with closed := true }

/-- The socket after some bytes have been received, under another schedule. -/
def skip (sock : Socket) (count : ℕ) (schedule : ℕ → ℕ) : Socket :=
  { sock with incoming := sock.incoming.drop count, schedule := schedule }

theorem recv_fst_length (sock : Socket) (count : ℕ) :
    (sock.recv count).1.length = min (min count sock.incoming.length) (sock.schedule 0 + 1) := by
  rw [recv, List.length_take]
  omega

theorem recv_eq (sock : Socket) (count : ℕ) :
    sock.recv count = (sock.incoming.take (sock.recv count).1.length,
      sock.skip (sock.recv count).1.length fun n => sock.schedule (n + 1)) := by
  rw [recv_fst_length]
  rfl

theorem recv_fst_length_pos {sock : Socket} {count : ℕ} (hcount : 0 < count)
    (hleft : sock.incoming ≠ []) : 0 < (sock.recv count).1.length := by
  have hlen := List.length_pos_iff.mpr hleft
  rw [recv_fst_length]
  omega

/-- Receive exactly a number of bytes; `none`, with the socket closed, when the stream ends
before that. -/
def readExactly (sock : Socket) (count : ℕ) : Option (List UInt8) × Socket :=
  if count = 0 then (some [], sock)
  else
    if (sock.recv count).1 = [] then (none, (sock.recv count).2.close)
    else
      let (rest, sock') := readExactly (sock.recv count).2 (count - (sock.recv count).1.length)
      (rest.map ((sock.recv count).1 ++ ·), sock')
termination_by count
decreasing_by
  have hpos := List.length_pos_iff.mpr (by assumption)
  omega

/-- While bytes are left, reading takes some of them and goes on with the rest. -/
theorem readExactly_step {sock : Socket} {count : ℕ} (hcount : 0 < count)
    (hleft : sock.incoming ≠ []) :
    ∃ size schedule, 0 < size ∧ size ≤ count ∧ size ≤ sock.incoming.length ∧
      sock.readExactly count =
        (((sock.skip size schedule).readExactly (count - size)).1.map
            (sock.incoming.take size ++ ·),
          ((sock.skip size schedule).readExactly (count - size)).2) := by
  have hpos := recv_fst_length_pos hcount hleft
  have hlen := recv_fst_length sock count
  refine ⟨(sock.recv count).1.length, fun n => sock.schedule (n + 1), hpos, by omega, by omega, ?_⟩
  have hnew : (sock.recv count).1 ≠ [] := List.length_pos_iff.mp hpos
  have heq := recv_eq sock count
  have htake := congrArg Prod.fst heq
  have hskip := congrArg Prod.snd heq
  simp only at htake hskip
  rw [readExactly, if_neg (by omega), if_neg hnew, hskip, ← htake]

/-- However the bytes arrive, reading a count that is there returns exactly those bytes. -/
theorem readExactly_eq_some {sock : Socket} {count : ℕ} (h : count ≤ sock.incoming.length) :
    ∃ schedule, sock.readExactly count =
      (some (sock.incoming.take count), sock.skip count schedule) := by
  induction count using Nat.strong_induction_on generalizing sock with
  | _ count ih =>
    by_cases hzero : count = 0
    · subst hzero
      rw [readExactly]
      exact ⟨sock.schedule, rfl⟩
    · have hleft : sock.incoming ≠ [] := by
        intro hnil
        rw [hnil, List.length_nil] at h
        omega
      obtain ⟨size, schedule, hpos, hcount, hsize, heq⟩ :=
        readExactly_step (Nat.pos_of_ne_zero hzero) hleft
      have hrest : count - size ≤ (sock.skip size schedule).incoming.length := by
        rw [skip, List.length_drop]
        omega
      obtain ⟨schedule', hread⟩ := ih (count - size) (by omega) hrest
      refine ⟨schedule', ?_⟩
      rw [heq, hread]
      have hsum : size + (count - size) = count := by omega
      simp only [skip, Option.map_some, List.drop_drop, ← List.take_add, hsum]

/-- The socket with other bytes on their way, under another schedule. -/
def facing (sock : Socket) (rest : List UInt8) (schedule : ℕ → ℕ) : Socket :=
  { sock with incoming := rest, schedule := schedule }

@[simp] theorem facing_incoming (sock : Socket) (rest : List UInt8) (schedule : ℕ → ℕ) :
    (sock.facing rest schedule).incoming = rest := rfl

@[simp] theorem facing_outgoing (sock : Socket) (rest : List UInt8) (schedule : ℕ → ℕ) :
    (sock.facing rest schedule).outgoing = sock.outgoing := rfl

@[simp] theorem facing_facing (sock : Socket) (rest rest' : List UInt8)
    (schedule schedule' : ℕ → ℕ) :
    (sock.facing rest schedule).facing rest' schedule' = sock.facing rest' schedule' := rfl

/-- Data in front of the stream is read as a whole and what follows it is left. -/
theorem readExactly_append {sock : Socket} {data rest : List UInt8}
    (h : sock.incoming = data ++ rest) :
    ∃ schedule, sock.readExactly data.length = (some data, sock.facing rest schedule) := by
  have hlen : data.length ≤ sock.incoming.length := by
    rw [h, List.length_append]
    omega
  obtain ⟨schedule, hread⟩ := readExactly_eq_some hlen
  refine ⟨schedule, ?_⟩
  rw [hread, skip, facing, h, List.take_left, List.drop_left]

/-- Reading more than is there closes the socket. -/
theorem readExactly_eq_none {sock : Socket} {count : ℕ} (h : sock.incoming.length < count) :
    ∃ schedule, sock.readExactly count =
      (none, (sock.skip sock.incoming.length schedule).close) := by
  induction count using Nat.strong_induction_on generalizing sock with
  | _ count ih =>
    by_cases hleft : sock.incoming = []
    · have hempty : (sock.recv count).1 = [] := by
        rw [recv, hleft, List.take_nil]
      refine ⟨fun n => sock.schedule (n + 1), ?_⟩
      rw [readExactly, if_neg (by omega), if_pos hempty]
      simp [recv, skip, hleft]
    · have hmore : 0 < count := by omega
      obtain ⟨size, schedule, hpos, hcount, hsize, heq⟩ := readExactly_step hmore hleft
      have hrest : (sock.skip size schedule).incoming.length < count - size := by
        rw [skip, List.length_drop]
        omega
      obtain ⟨schedule', hread⟩ := ih (count - size) (by omega) hrest
      refine ⟨schedule', ?_⟩
      rw [heq, hread]
      have hsum : size + (sock.incoming.length - size) = sock.incoming.length := by omega
      simp only [skip, Option.map_none, List.length_drop, List.drop_drop, hsum]

end Socket

end OpenDiamond.Lib.Sockets
