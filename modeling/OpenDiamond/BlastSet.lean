import Mathlib.Data.Finset.Basic
import OpenDiamond.Lib.Processes

/-!
# The result stream of a client

`_DiamondBlastSet` merges the results of all connections: a thread for each connection puts
what it receives into one bounded queue and leaves a set of pending connections at the end,
and a generator takes the results from the queue. When no result comes for a while, the
generator looks at the set, and returns if it is empty; a result that was put between the
two looks stays in the queue.
-/

namespace OpenDiamond.BlastSet

open Lib.Runs Lib.Processes

variable {R : Type*}

/-! ## The threads -/

/-- What a call of `get_result` gives, before the end of the search or a failure of the
connection. -/
inductive Item (R : Type*) where
  /-- The attributes of an object. -/
  | result (value : R)
  /-- An exception of `unpack_attributes`, which `_handle_objects` does not catch. -/
  | unpackError
  deriving DecidableEq

/-- `recv_objs` for one connection. -/
inductive Receiver (R : Type*) where
  /-- In `get_result`, with what the connection is still to deliver. -/
  | receiving (rest : List (Item R))
  /-- In `pending_objs.put`. -/
  | putting (value : R) (rest : List (Item R))
  /-- In the `finally` clause. -/
  | leaving
  /-- At the end. -/
  | gone

/-- Where `_try_start` is. -/
inductive Consumer where
  /-- In the loop that starts the threads. -/
  | starting (rest : List ℕ)
  /-- In `pending_objs.get`. -/
  | getting
  /-- After a `queue.Empty`, before the look at `pending_conns`. -/
  | emptied
  /-- The generator has returned. -/
  | returned
  deriving DecidableEq

/-- What the threads share. -/
structure Shared (R : Type*) where
  /-- `pending_objs`, each object with its connection. -/
  pendingObjs : List (ℕ × R)
  /-- `pending_conns`. -/
  pendingConns : Finset ℕ
  /-- The threads that have been started. -/
  started : Finset ℕ
  /-- The generator. -/
  consumer : Consumer
  /-- What the generator has yielded. -/
  yielded : List (ℕ × R)
  /-- What calls of `get_result` have given. -/
  received : List (ℕ × Item R)
  /-- How many results were put since the last timeout of the generator. -/
  late : ℕ

/-- The size of `pending_objs`. -/
def queueSize : ℕ := 100

/-- A step of the thread of a connection. Without `close`, a `put` that times out is tried
again. -/
def receiverStep (s : Shared R) (conn : ℕ) (receiver : Receiver R) (_ : Unit) :
    Option (Shared R × Receiver R) :=
  if conn ∈ s.started then
    match receiver with
    | .receiving (.result value :: rest) => some
        ({ s with received := s.received ++ [(conn, .result value)] }, .putting value rest)
    | .receiving (.unpackError :: _) => some
        ({ s with received := s.received ++ [(conn, .unpackError)] }, .leaving)
    | .receiving [] => some (s, .leaving)
    | .putting value rest =>
      if s.pendingObjs.length < queueSize then some
        ({ s with pendingObjs := s.pendingObjs ++ [(conn, value)], late := s.late + 1 },
          .receiving rest)
      else some (s, .putting value rest)
    | .leaving => some ({ s with pendingConns := s.pendingConns.erase conn }, .gone)
    | .gone => none
  else none

/-- A step of the generator. -/
inductive Move where
  /-- `pending_conns.add` and `worker.start`, or the end of that loop. -/
  | start
  /-- `get` finds an object, which is yielded. -/
  | get
  /-- `get` raises `queue.Empty`: the queue is empty at that moment. -/
  | timeout
  /-- `len(pending_conns) == 0`. -/
  | check

/-- `_try_start`. -/
def consumerStep (s : Shared R) : Move → Option (Shared R)
  | .start =>
    match s.consumer with
    | .starting (conn :: rest) => some
        { s with
          pendingConns := insert conn s.pendingConns
          started := insert conn s.started
          consumer := .starting rest }
    | .starting [] => some { s with consumer := .getting }
    | _ => none
  | .get =>
    match s.consumer, s.pendingObjs with
    | .getting, obj :: rest => some
        { s with pendingObjs := rest, yielded := s.yielded ++ [obj] }
    | _, _ => none
  | .timeout =>
    match s.consumer, s.pendingObjs with
    | .getting, [] => some { s with consumer := .emptied, late := 0 }
    | _, _ => none
  | .check =>
    match s.consumer with
    | .emptied => some
        { s with consumer := if s.pendingConns = ∅ then .returned else .getting }
    | _ => none

/-- A set of connections, in the order of iteration, each with what it will deliver. -/
structure Connections (R : Type*) where
  /-- `_connections`. -/
  conns : List ℕ
  /-- What each of them delivers. -/
  stream : ℕ → List (Item R)

/-- The state in which `_try_start` begins. -/
def Connections.initial (c : Connections R) : System (Shared R) (Receiver R) :=
  ⟨⟨[], ∅, ∅, .starting c.conns, [], [], 0⟩, fun conn => .receiving (c.stream conn)⟩

/-- The threads and the generator, in any order. -/
abbrev setStep : System (Shared R) (Receiver R) → Label Unit Move →
    Option (System (Shared R) (Receiver R)) := step receiverStep consumerStep

/-! ## What is where -/

/-- The entries of one connection. -/
def ofConn {α : Type*} (conn : ℕ) (entries : List (ℕ × α)) : List α :=
  (entries.filter fun entry => decide (entry.1 = conn)).map Prod.snd

@[simp] theorem ofConn_nil {α : Type*} (conn : ℕ) : ofConn conn ([] : List (ℕ × α)) = [] := rfl

@[simp] theorem ofConn_append {α : Type*} (conn : ℕ) (first second : List (ℕ × α)) :
    ofConn conn (first ++ second) = ofConn conn first ++ ofConn conn second := by
  simp [ofConn]

@[simp] theorem ofConn_single {α : Type*} (conn : ℕ) (value : α) :
    ofConn conn [(conn, value)] = [value] := by
  simp [ofConn]

theorem ofConn_single_of_ne {α : Type*} {conn other : ℕ} (h : other ≠ conn) (value : α) :
    ofConn other [(conn, value)] = [] := by
  simp [ofConn, Ne.symm h]

theorem ofConn_cons {α : Type*} (conn : ℕ) (entry : ℕ × α) (rest : List (ℕ × α)) :
    ofConn conn (entry :: rest) = ofConn conn [entry] ++ ofConn conn rest :=
  ofConn_append conn [entry] rest

/-- The results of a connection that have been put into the queue. -/
def Shared.put (s : Shared R) (conn : ℕ) : List (Item R) :=
  (ofConn conn (s.yielded ++ s.pendingObjs)).map .result

/-- The thread of a connection has put what it received and goes on with the rest. -/
def Connections.Follows (c : Connections R) (s : Shared R) (conn : ℕ) (held : List (Item R))
    (rest : List (Item R)) : Prop :=
  ofConn conn s.received = s.put conn ++ held ∧ ofConn conn s.received ++ rest = c.stream conn

/-- The thread has come to the end of the connection, or an exception has ended it. -/
def Connections.Ended (c : Connections R) (s : Shared R) (conn : ℕ) : Prop :=
  c.Follows s conn [] [] ∨ ∃ rest, c.Follows s conn [.unpackError] rest

/-- What holds of the thread of a connection. -/
def Connections.ReceiverOk (c : Connections R) (s : Shared R) (conn : ℕ) : Receiver R → Prop
  | .receiving rest => c.Follows s conn [] rest ∧ (conn ∈ s.started → conn ∈ s.pendingConns)
  | .putting value rest => c.Follows s conn [.result value] rest ∧ conn ∈ s.pendingConns
  | .leaving => c.Ended s conn ∧ conn ∈ s.pendingConns
  | .gone => c.Ended s conn

/-- All threads are running or at their end. -/
def Connections.AllStarted (c : Connections R) (s : Shared R) : Prop :=
  ∀ conn ∈ c.conns, conn ∈ s.started

/-- What holds of the generator: after a timeout the queue has what was put since. -/
def Connections.ConsumerOk (c : Connections R) (s : Shared R) : Consumer → Prop
  | .starting rest => (∀ conn ∈ c.conns, conn ∈ s.started ∨ conn ∈ rest) ∧ rest ⊆ c.conns
  | .getting => c.AllStarted s
  | .emptied => c.AllStarted s ∧ s.pendingObjs.length = s.late
  | .returned => c.AllStarted s ∧ s.pendingObjs.length = s.late ∧ s.pendingConns = ∅

/-- What holds of the shared state. -/
structure Connections.SharedInv (c : Connections R) (s : Shared R) : Prop where
  /-- Only connections of the set have threads. -/
  started : ∀ conn ∈ s.started, conn ∈ c.conns
  /-- Only threads put objects. -/
  tagged : ∀ obj ∈ s.pendingObjs, obj.1 ∈ s.started
  /-- The generator. -/
  consumer : c.ConsumerOk s s.consumer

/-- A connection whose part of the lists is the same keeps what holds of its thread. -/
theorem Connections.ReceiverOk.congr {c : Connections R} {s t : Shared R} {conn : ℕ}
    {receiver : Receiver R} (h : c.ReceiverOk s conn receiver)
    (hput : t.put conn = s.put conn) (hreceived : ofConn conn t.received = ofConn conn s.received)
    (hstarted : conn ∈ t.started → conn ∈ s.started ∨ conn ∈ t.pendingConns)
    (hpending : conn ∈ s.pendingConns → conn ∈ t.pendingConns) :
    c.ReceiverOk t conn receiver := by
  have hfollows : ∀ held rest, c.Follows s conn held rest → c.Follows t conn held rest := by
    intro held rest hs
    rw [Follows, hput, hreceived]
    exact hs
  have hended : c.Ended s conn → c.Ended t conn := by
    rintro (hs | ⟨rest, hs⟩)
    · exact Or.inl (hfollows _ _ hs)
    · exact Or.inr ⟨rest, hfollows _ _ hs⟩
  cases receiver with
  | receiving rest =>
    refine ⟨hfollows _ _ h.1, ?_⟩
    intro hmem
    rcases hstarted hmem with hold | hnew
    · exact hpending (h.2 hold)
    · exact hnew
  | putting value rest => exact ⟨hfollows _ _ h.1, hpending h.2⟩
  | leaving => exact ⟨hended h.1, hpending h.2⟩
  | gone => exact hended h

/-- The next connection becomes pending and its thread starts. -/
theorem Connections.SharedInv.start {c : Connections R} {s : Shared R} (h : c.SharedInv s)
    {conn : ℕ} {rest : List ℕ} (hstate : s.consumer = .starting (conn :: rest)) :
    c.SharedInv { s with
      pendingConns := insert conn s.pendingConns
      started := insert conn s.started
      consumer := .starting rest } := by
  have hconsumer := h.consumer
  rw [hstate] at hconsumer
  obtain ⟨hall, hsub⟩ := hconsumer
  refine ⟨?_, ?_, ?_, ?_⟩
  · intro other hother
    rcases Finset.mem_insert.mp hother with rfl | hold
    · exact hsub List.mem_cons_self
    · exact h.started other hold
  · intro obj hobj
    exact Finset.mem_insert_of_mem (h.tagged obj hobj)
  · intro other hother
    rcases hall other hother with hold | hrest
    · exact Or.inl (Finset.mem_insert_of_mem hold)
    · rcases List.mem_cons.mp hrest with rfl | hrest
      · exact Or.inl (Finset.mem_insert_self other _)
      · exact Or.inr hrest
  · exact fun other hother => hsub (List.mem_cons_of_mem conn hother)

/-- A step of the generator leaves what holds of the threads, since it takes from the queue and
never puts into it. -/
theorem consumerStep_kept (c : Connections R) (s : Shared R) (move : Move) (t : Shared R)
    (h : c.SharedInv s) (hstep : consumerStep s move = some t) :
    c.SharedInv t ∧ ∀ conn receiver, c.ReceiverOk s conn receiver → c.ReceiverOk t conn receiver := by
  have hconsumer := h.consumer
  cases move with
  | start =>
    simp only [consumerStep] at hstep
    split at hstep
    · rename_i conn rest hstate
      cases hstep
      refine ⟨h.start hstate, ?_⟩
      intro other receiver hok
      refine hok.congr rfl rfl ?_ (fun hmem => Finset.mem_insert_of_mem hmem)
      intro hmem
      rcases Finset.mem_insert.mp hmem with rfl | hold
      · exact Or.inr (Finset.mem_insert_self other _)
      · exact Or.inl hold
    · rename_i hstate
      cases hstep
      rw [hstate] at hconsumer
      have hall : c.AllStarted s := by
        intro conn hconn
        rcases hconsumer.1 conn hconn with hold | hrest
        · exact hold
        · cases hrest
      exact ⟨⟨h.started, h.tagged, hall⟩,
        fun conn receiver hok => hok.congr rfl rfl Or.inl id⟩
    · cases hstep
  | get =>
    simp only [consumerStep] at hstep
    split at hstep
    · rename_i obj rest hstate hqueue
      cases hstep
      rw [hstate] at hconsumer
      refine ⟨⟨h.started, ?_, ?_⟩, ?_⟩
      · intro other hother
        exact h.tagged other (by rw [hqueue]; exact List.mem_cons_of_mem obj hother)
      · rw [hstate]
        exact hconsumer
      · intro conn receiver hok
        refine hok.congr ?_ rfl Or.inl id
        simp [Shared.put, hqueue]
    · cases hstep
  | timeout =>
    simp only [consumerStep] at hstep
    split at hstep
    · rename_i hstate hqueue
      cases hstep
      rw [hstate] at hconsumer
      refine ⟨⟨h.started, h.tagged, hconsumer, ?_⟩, fun conn receiver hok => hok.congr rfl rfl Or.inl id⟩
      simp [hqueue]
    · cases hstep
  | check =>
    simp only [consumerStep] at hstep
    split at hstep
    · rename_i hstate
      cases hstep
      rw [hstate] at hconsumer
      refine ⟨⟨h.started, h.tagged, ?_⟩, fun conn receiver hok => hok.congr rfl rfl Or.inl id⟩
      dsimp only
      split
      · rename_i hempty
        exact ⟨hconsumer.1, hconsumer.2, hempty⟩
      · exact hconsumer.1
    · cases hstep

/-- What holds of the generator depends on the threads through what they put and left. -/
theorem Connections.ConsumerOk.congr {c : Connections R} {s t : Shared R} {consumer : Consumer}
    (h : c.ConsumerOk s consumer) (hstarted : t.started = s.started)
    (hlate : s.pendingObjs.length = s.late → t.pendingObjs.length = t.late)
    (hpending : s.pendingConns = ∅ → t.pendingConns = ∅) : c.ConsumerOk t consumer := by
  have hall : c.AllStarted s → c.AllStarted t := by
    intro hs conn hconn
    rw [hstarted]
    exact hs conn hconn
  cases consumer with
  | starting rest =>
    rw [ConsumerOk, hstarted]
    exact h
  | getting => exact hall h
  | emptied => exact ⟨hall h.1, hlate h.2⟩
  | returned => exact ⟨hall h.1, hlate h.2.1, hpending h.2.2⟩

/-- A reception is recorded and touches nothing else. -/
theorem Connections.SharedInv.receive {c : Connections R} {s : Shared R} (h : c.SharedInv s)
    (received : List (ℕ × Item R)) : c.SharedInv { s with received := received } :=
  ⟨h.started, h.tagged, h.consumer.congr rfl id id⟩

/-- A put adds to the queue and to what was put since the last timeout. -/
theorem Connections.SharedInv.put {c : Connections R} {s : Shared R} (h : c.SharedInv s)
    {conn : ℕ} (hconn : conn ∈ s.started) (value : R) :
    c.SharedInv { s with
      pendingObjs := s.pendingObjs ++ [(conn, value)], late := s.late + 1 } := by
  refine ⟨h.started, ?_, h.consumer.congr rfl ?_ id⟩
  · intro obj hobj
    rcases List.mem_append.mp hobj with hold | hnew
    · exact h.tagged obj hold
    · rw [List.mem_singleton.mp hnew]
      exact hconn
  · intro hlate
    simp [hlate]

/-- A connection that leaves the pending ones. -/
theorem Connections.SharedInv.leave {c : Connections R} {s : Shared R} (h : c.SharedInv s)
    (conn : ℕ) : c.SharedInv { s with pendingConns := s.pendingConns.erase conn } := by
  refine ⟨h.started, h.tagged, h.consumer.congr rfl id ?_⟩
  intro hempty
  simp [hempty]

/-- A step of a thread keeps what holds of it and of all others: what it has received is what is in
the queue, was taken, or is in its hands, in this order. -/
theorem receiverStep_kept (c : Connections R) (s : Shared R) (conn : ℕ) (receiver : Receiver R)
    (choice : Unit) (t : Shared R) (next : Receiver R) (h : c.SharedInv s)
    (hok : c.ReceiverOk s conn receiver) (hstep : receiverStep s conn receiver choice = some (t, next)) :
    c.SharedInv t ∧ c.ReceiverOk t conn next ∧
      ∀ other receiver, other ≠ conn → c.ReceiverOk s other receiver →
        c.ReceiverOk t other receiver := by
  have hstarted : conn ∈ s.started := by
    by_contra hnot
    simp [receiverStep, hnot] at hstep
  simp only [receiverStep, if_pos hstarted] at hstep
  have hothers : ∀ item : Item R, ∀ other receiver, other ≠ conn →
      c.ReceiverOk s other receiver →
        c.ReceiverOk { s with received := s.received ++ [(conn, item)] } other receiver := by
    intro item other receiver hne hother
    refine hother.congr rfl ?_ Or.inl id
    simp [ofConn_single_of_ne hne]
  cases receiver with
  | receiving items =>
    obtain ⟨⟨hput, hstream⟩, hpending⟩ := hok
    rw [List.append_nil] at hput
    cases items with
    | nil =>
      cases hstep
      refine ⟨h, ⟨Or.inl ⟨?_, hstream⟩, hpending hstarted⟩, fun _ _ _ hother => hother⟩
      rw [List.append_nil, hput]
    | cons item rest =>
      cases item with
      | result value =>
        cases hstep
        refine ⟨h.receive _, ⟨⟨?_, ?_⟩, hpending hstarted⟩, hothers (.result value)⟩
        · rw [ofConn_append, ofConn_single, hput]
          rfl
        · rw [ofConn_append, ofConn_single, List.append_assoc]
          exact hstream
      | unpackError =>
        cases hstep
        refine ⟨h.receive _, ⟨Or.inr ⟨rest, ?_, ?_⟩, hpending hstarted⟩, hothers .unpackError⟩
        · rw [ofConn_append, ofConn_single, hput]
          rfl
        · rw [ofConn_append, ofConn_single, List.append_assoc]
          exact hstream
  | putting value rest =>
    obtain ⟨⟨hput, hstream⟩, hpending⟩ := hok
    dsimp only at hstep
    split at hstep
    · cases hstep
      refine ⟨h.put hstarted value, ⟨⟨?_, hstream⟩, fun _ => hpending⟩, ?_⟩
      · rw [List.append_nil, hput]
        simp [Shared.put, ← List.append_assoc]
      · intro other receiver hne hother
        refine hother.congr ?_ rfl Or.inl id
        simp [Shared.put, ofConn_single_of_ne hne]
    · cases hstep
      exact ⟨h, ⟨⟨hput, hstream⟩, hpending⟩, fun _ _ _ hother => hother⟩
  | leaving =>
    obtain ⟨hended, hpending⟩ := hok
    cases hstep
    refine ⟨h.leave conn, hended, ?_⟩
    intro other receiver hne hother
    exact hother.congr rfl rfl Or.inl fun hmem => Finset.mem_erase.mpr ⟨hne, hmem⟩
  | gone => cases hstep

/-- The invariant holds in every state that is reached, whatever the order of the threads and of the
generator. -/
theorem run_holds {c : Connections R} {labels : List (Label Unit Move)}
    {s : System (Shared R) (Receiver R)} (hrun : exec setStep c.initial labels = some s) :
    Holds c.SharedInv c.ReceiverOk s := by
  have hinitial : Holds c.SharedInv c.ReceiverOk c.initial := by
    refine ⟨⟨?_, ?_, ?_⟩, ?_⟩
    · intro conn hconn
      cases hconn
    · intro obj hobj
      cases hobj
    · exact ⟨fun conn hconn => Or.inr hconn, List.Subset.refl _⟩
    · intro conn
      refine ⟨⟨rfl, rfl⟩, ?_⟩
      intro hmem
      cases hmem
  exact exec_holds_of_steps (receiverStep_kept c) (consumerStep_kept c) hinitial hrun

/-- A thread that was started and is not pending any more has come to its end. -/
theorem Connections.ReceiverOk.ended {c : Connections R} {s : Shared R} {conn : ℕ}
    {receiver : Receiver R} (h : c.ReceiverOk s conn receiver) (hstarted : conn ∈ s.started)
    (hpending : conn ∉ s.pendingConns) : c.Ended s conn := by
  cases receiver with
  | receiving rest => exact absurd (h.2 hstarted) hpending
  | putting value rest => exact absurd h.2 hpending
  | leaving => exact h.1
  | gone => exact h

/-- A thread whose results were all yielded was not ended by an exception. -/
theorem Connections.Ended.follows {c : Connections R} {s : Shared R} {conn : ℕ}
    (h : c.Ended s conn)
    (hyielded : (ofConn conn s.yielded).map .result = ofConn conn s.received) :
    c.Follows s conn [] [] ∧ ofConn conn s.pendingObjs = [] := by
  rcases h with hfollows | ⟨rest, hput, _⟩
  · refine ⟨hfollows, ?_⟩
    have hput := hfollows.1
    rw [← hyielded, Shared.put, ofConn_append, List.map_append, List.append_nil] at hput
    exact List.map_eq_nil_iff.mp (List.append_right_eq_self.mp hput.symm)
  · have hmem : Item.unpackError ∈ ofConn conn s.received := by
      rw [hput]
      simp
    rw [← hyielded] at hmem
    simp at hmem

/-- When the generator has returned, it has yielded every result received on every
connection exactly once, in order, if and only if no result was put after its last timeout
and no connection delivered attributes that do not unpack. -/
theorem stream_complete_iff {c : Connections R} {labels : List (Label Unit Move)}
    {s : System (Shared R) (Receiver R)} (hrun : exec setStep c.initial labels = some s)
    (hreturned : s.shared.consumer = .returned) :
    (∀ conn ∈ c.conns,
        (ofConn conn s.shared.yielded).map .result = ofConn conn s.shared.received) ↔
      s.shared.late = 0 ∧ ∀ conn ∈ c.conns, .unpackError ∉ c.stream conn := by
  obtain ⟨hshared, hreceivers⟩ := run_holds hrun
  have hconsumer := hshared.consumer
  rw [hreturned] at hconsumer
  obtain ⟨hall, hlate, hpending⟩ := hconsumer
  have hended : ∀ conn ∈ c.conns, c.Ended s.shared conn := by
    intro conn hconn
    have hnot : conn ∉ s.shared.pendingConns := by simp [hpending]
    exact (hreceivers conn).ended (hall conn hconn) hnot
  have hresult : ∀ conn, .unpackError ∉ s.shared.put conn := by
    intro conn hmem
    simp [Shared.put] at hmem
  constructor
  · intro hyielded
    have hfirst := fun conn hconn => (hended conn hconn).follows (hyielded conn hconn)
    refine ⟨?_, ?_⟩
    · rw [← hlate]
      cases hqueue : s.shared.pendingObjs with
      | nil => rfl
      | cons obj rest =>
        have hobj : obj ∈ s.shared.pendingObjs := by
          rw [hqueue]
          exact List.mem_cons_self
        have hconn := hshared.started obj.1 (hshared.tagged obj hobj)
        have hnone := (hfirst obj.1 hconn).2
        rw [hqueue, ofConn_cons] at hnone
        simp [ofConn] at hnone
    · intro conn hconn hmem
      obtain ⟨⟨hput, hstream⟩, _⟩ := hfirst conn hconn
      rw [← hstream, hput, List.append_nil, List.append_nil] at hmem
      exact hresult conn hmem
  · rintro ⟨hzero, herror⟩ conn hconn
    have hqueue : s.shared.pendingObjs = [] := List.length_eq_zero_iff.mp (hlate.trans hzero)
    rcases hended conn hconn with ⟨hput, _⟩ | ⟨rest, hput, hstream⟩
    · rw [hput, Shared.put, hqueue, List.append_nil, List.append_nil]
    · refine absurd ?_ (herror conn hconn)
      rw [← hstream, hput]
      simp

/-- Two connections, with two results and one. -/
def merged : Connections ℕ := ⟨[0, 1], fun conn => if conn = 0 then [.result 7, .result 8]
  else [.result 9]⟩

/-- The threads put their results in turn, and the generator yields them as they come. -/
def mergedRun : List (Label Unit Move) :=
  [.env .start, .env .start, .env .start, .proc 0 (), .proc 1 (), .proc 1 (), .proc 0 (),
    .env .get, .proc 0 (), .proc 1 (), .proc 0 (), .env .get, .proc 0 (), .proc 1 (), .env .get,
    .env .timeout, .env .check, .proc 0 (), .env .timeout, .env .check]

/-- Everything that two threads received is yielded, the results of each in their order. -/
theorem stream_complete_merged :
    ∃ s, exec setStep merged.initial mergedRun = some s ∧ s.shared.consumer = .returned ∧
      s.shared.yielded = [(1, 9), (0, 7), (0, 8)] ∧
      (ofConn 0 s.shared.yielded).map .result = ofConn 0 s.shared.received ∧
      (ofConn 1 s.shared.yielded).map .result = ofConn 1 s.shared.received := by
  obtain ⟨s, hrun, hreturned, hlate, hyielded⟩ : ∃ s, exec setStep merged.initial mergedRun =
      some s ∧ s.shared.consumer = .returned ∧ s.shared.late = 0 ∧
      s.shared.yielded = [(1, 9), (0, 7), (0, 8)] := ⟨_, rfl, rfl, rfl, rfl⟩
  have hcomplete := (stream_complete_iff hrun hreturned).mpr
    ⟨hlate, fun conn _ => by by_cases hconn : conn = 0 <;> simp [merged, hconn]⟩
  exact ⟨s, hrun, hreturned, hyielded, hcomplete 0 (by simp [merged]),
    hcomplete 1 (by simp [merged])⟩

/-- One connection with one result. -/
def single : Connections ℕ := ⟨[0], fun _ => [.result 7]⟩

/-- The only result is put between the timeout of the queue and the look at the pending connections:
the generator returns without it. -/
theorem late_result_lost :
    ∃ s, exec setStep single.initial [.env .start, .env .start, .proc 0 (), .env .timeout,
        .proc 0 (), .proc 0 (), .proc 0 (), .env .check] = some s ∧
      s.shared.consumer = .returned ∧ ofConn 0 s.shared.received = [.result 7] ∧
      s.shared.yielded = [] :=
  ⟨_, rfl, rfl, rfl, rfl⟩

end OpenDiamond.BlastSet
