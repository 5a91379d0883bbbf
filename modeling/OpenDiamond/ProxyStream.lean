import OpenDiamond.Lib.Grouping
import OpenDiamond.Lib.Processes
import OpenDiamond.ProxyBlast

/-!
# The stream through the proxy

A thread for each connection of the proxy appends what the server delivers to one queue, and the
thread that answers the client takes the objects off the queue, scores them and replies with those
that are kept. Both look at a flag that is cleared while the models are trained; a request that
finds it cleared empties the queue. A second queue counts requests: a connection is asked for an
object only when it is not empty.

The connections are numbered. A step of a thread is what it does to what is shared; a call that
blocks or spins is a step that changes nothing, or none. The thread that answers begins when `start`
has set its own flag.
-/

namespace OpenDiamond.ProxyStream

open Lib.Runs Lib.Processes Lib.Grouping ProxyBlast

variable {F : Type}

/-! ## The threads -/

/-- `worker` of a connection with its generator `_handle_objects`, and what the connection is still
to deliver before it fails. -/
inductive Worker where
  /-- Before the look at `ProxySearch.running` in `worker`. -/
  | resuming (rest : List Object)
  /-- Before the look in the generator. -/
  | asking (rest : List Object)
  /-- In `while not req_queue`. -/
  | throttled (rest : List Object)
  /-- In `get_result`. -/
  | receiving (rest : List Object)
  /-- Before `pending_objs.append`. -/
  | putting (obj : Object) (rest : List Object)
  /-- At the end. -/
  | gone

/-- Where the thread that answers the client is. -/
inductive Getter where
  /-- In `dispatch`, before a request. -/
  | idle
  /-- In `get_object`, before the look at `ProxySearch.running`. -/
  | checking
  /-- Before `pending_objs.clear`. -/
  | clearingObjs
  /-- Before `pending_reqs.clear`. -/
  | clearingReqs
  /-- Before `setup_requests`. -/
  | refilling
  /-- Before `add_request`. -/
  | adding
  /-- In `while not self.pending_objs`. -/
  | fetching
  /-- In `fetch_object`, with an object and its connection. -/
  | scoring (conn : ℕ) (obj : Object)
  /-- Before `decrease_request`, with what is to be returned. -/
  | removing (obj : Object)
  /-- An exception has ended the thread. -/
  | dead

/-- An object that has left the queue: it was taken, or cleared away without a turn. -/
structure Entry (F : Type) where
  /-- The connection. -/
  conn : ℕ
  /-- The object. -/
  obj : Object
  /-- What it met. -/
  turn : Option (Turn F)

/-- What the threads share. -/
structure Shared (F : Type) where
  /-- `ProxySearch.running`. -/
  running : Bool
  /-- The length of `pending_reqs`. -/
  pendingReqs : ℕ
  /-- `pending_objs`, each object with its connection. -/
  pendingObjs : List (ℕ × Object)
  /-- `dropped_count`. -/
  droppedCount : ℕ
  /-- The thread that answers. -/
  getter : Getter
  /-- What the connections have delivered. -/
  received : List (ℕ × Object)
  /-- What has left the queue. -/
  handled : List (Entry F)
  /-- What the client has got. -/
  replies : List Object

/-- A step of the thread of a connection. -/
def workerStep (s : Shared F) (conn : ℕ) (worker : Worker) (_ : Unit) :
    Option (Shared F × Worker) :=
  match worker with
  | .resuming rest => some (s, if s.running then .asking rest else .resuming rest)
  | .asking rest => some (s, if s.running then .throttled rest else .asking rest)
  | .throttled rest => some (s, if s.pendingReqs = 0 then .throttled rest else .receiving rest)
  | .receiving [] => some (s, .gone)
  | .receiving (obj :: rest) =>
    if obj.attrs = [] then some (s, .gone)
    else some ({ s with received := s.received ++ [(conn, obj)] }, .putting obj rest)
  | .putting obj rest => some
      ({ s with pendingObjs := s.pendingObjs ++ [(conn, obj)] }, .resuming rest)
  | .gone => none

/-- What else happens. -/
inductive Move (F : Type) where
  /-- The client asks for an object. -/
  | request
  /-- The next step of the thread that answers, where nothing is open about it. -/
  | advance
  /-- A round of `fetch_object`. -/
  | score (turn : Turn F)
  /-- `retrain_filter` sets `ProxySearch.running`. -/
  | setRunning (running : Bool)

variable (packages : Packages F) (conns : ℕ)

/-- A step of the thread that answers, on its own. -/
def advance (s : Shared F) : Option (Shared F) :=
  match s.getter with
  | .checking => some { s with getter := if s.running then .adding else .clearingObjs }
  | .clearingObjs => some
      { s with
        pendingObjs := []
        getter := .clearingReqs
        handled := s.handled ++ s.pendingObjs.map fun entry => ⟨entry.1, entry.2, none⟩ }
  | .clearingReqs => some { s with pendingReqs := 0, getter := .refilling }
  | .refilling => some { s with pendingReqs := s.pendingReqs + conns, getter := .checking }
  | .adding => some { s with pendingReqs := s.pendingReqs + 1, getter := .fetching }
  | .fetching =>
    match s.pendingObjs with
    | [] => some s
    | (conn, obj) :: rest => some { s with pendingObjs := rest, getter := .scoring conn obj }
  | .removing obj => some
      { s with
        pendingReqs := s.pendingReqs - 1
        getter := .idle
        replies := s.replies ++ [obj] }
  | _ => none

/-- Where a round of `fetch_object` leads to. -/
def afterRound : Outcome → Getter
  | .returned obj => .removing obj
  | .withheld => .fetching
  | .raised => .dead

/-- A step that is not one of a connection's thread. -/
def moveStep (s : Shared F) : Move F → Option (Shared F)
  | .request =>
    match s.getter with
    | .idle => some { s with getter := .checking }
    | _ => none
  | .advance => advance conns s
  | .score turn =>
    match s.getter with
    | .scoring conn obj =>
      let result := round packages turn obj s.droppedCount
      some { s with
        droppedCount := result.2
        handled := s.handled ++ [⟨conn, obj, some turn⟩]
        getter := afterRound result.1 }
    | _ => none
  | .setRunning running => some { s with running := running }

/-- The threads, in any order. -/
abbrev proxyStep : System (Shared F) Worker → Label Unit (Move F) →
    Option (System (Shared F) Worker) := step workerStep (moveStep packages conns)

/-- The state after `start`, with what the connections will deliver. -/
def initial (stream : ℕ → List Object) : System (Shared F) Worker :=
  ⟨⟨true, conns, [], 0, .idle, [], [], []⟩,
    fun conn => if conn < conns then .resuming (stream conn) else .gone⟩

/-! ## What is where -/

/-- What a connection delivers before the end of the search. -/
def delivered (stream : List Object) : List Object := stream.takeWhile fun obj => obj.attrs ≠ []

/-- An object that a thread holds. -/
def Worker.held : Worker → List Object
  | .putting obj _ => [obj]
  | _ => []

/-- What is still to come, none after the end. -/
def Worker.rest : Worker → Option (List Object)
  | .resuming rest => some rest
  | .asking rest => some rest
  | .throttled rest => some rest
  | .receiving rest => some rest
  | .putting _ rest => some rest
  | .gone => none

/-- The object that is scored. -/
def Getter.held : Getter → List (ℕ × Object)
  | .scoring conn obj => [(conn, obj)]
  | _ => []

/-- The object that is about to be returned. -/
def Getter.returning : Getter → List Object
  | .removing obj => [obj]
  | _ => []

/-- The requests that the thread that answers has added or cleared. -/
def Getter.requests (conns : ℕ) : Getter → ℕ
  | .refilling => 0
  | .fetching => conns + 1
  | .scoring _ _ => conns + 1
  | .removing _ => conns + 1
  | .dead => conns + 1
  | _ => conns

/-- An object with its connection. -/
def Entry.pair (entry : Entry F) : ℕ × Object := (entry.conn, entry.obj)

/-- What the client gets for an object. -/
def Entry.reply (entry : Entry F) : Option Object :=
  entry.turn.bind fun turn => (afterRound (round packages turn entry.obj 0).1).returning.head?

/-- An object with a low score that is sent all the same. -/
def Entry.sampled (entry : Entry F) : Bool :=
  entry.turn.any fun turn => ProxyBlast.sampled packages (turn, entry.obj)

/-- Everything that was ever in the queue, in order. -/
def Shared.line (s : Shared F) : List (ℕ × Object) :=
  s.handled.map Entry.pair ++ s.getter.held ++ s.pendingObjs

/-- The objects of a connection are in the line or in the hands of its thread, and the others are
still to come. -/
structure Follows (stream got line : List Object) (worker : Worker) : Prop where
  /-- In the line or in hand. -/
  here : got = line ++ worker.held
  /-- Before the end, and what is to come. -/
  later : match worker.rest with
    | some rest => stream = got ++ rest ∧ ∀ obj ∈ got, obj.attrs ≠ []
    | none => got = delivered stream

/-- What a connection's thread keeps; there is no thread without a connection. -/
def WorkerOk (stream : ℕ → List Object) (s : Shared F) (conn : ℕ) (worker : Worker) : Prop :=
  if conn < conns then
    Follows (stream conn) (valuesOf s.received conn) (valuesOf s.line conn) worker
  else worker = .gone

/-- What all threads keep. -/
structure SharedInv (s : Shared F) : Prop where
  /-- Objects have attributes. -/
  attrs : ∀ entry ∈ s.line, entry.2.attrs ≠ []
  /-- The replies are those to what was taken. -/
  replies : s.replies ++ s.getter.returning = s.handled.filterMap (Entry.reply packages)
  /-- `dropped_count` counts the samples. -/
  counted : s.droppedCount = s.handled.countP (Entry.sampled packages)
  /-- The second queue. -/
  requests : s.pendingReqs = s.getter.requests conns

variable {packages conns}

/-- What a connection puts into the queue has attributes; an object without any would have been its
end. -/
theorem Follows.attrs {stream got line : List Object} {obj : Object} {rest : List Object}
    (h : Follows stream got line (.putting obj rest)) : obj.attrs ≠ [] := by
  obtain ⟨-, hgot⟩ := h.later
  refine hgot obj ?_
  rw [h.here]
  exact List.mem_append_right _ (List.mem_singleton_self obj)

/-- The stream of a connection ends with an object without attributes or a failure. -/
theorem Follows.gone {stream got line : List Object} (h : got = line)
    (hgot : ∀ obj ∈ got, obj.attrs ≠ []) {rest : List Object} (hstream : stream = got ++ rest)
    (hrest : ∀ obj ∈ rest.head?, obj.attrs = []) : Follows stream got line .gone := by
  refine ⟨h.trans (List.append_nil _).symm, ?_⟩
  have hstop : rest.takeWhile (fun obj => obj.attrs ≠ []) = [] := by
    cases rest with
    | nil => rfl
    | cons obj rest => rw [List.takeWhile_cons_of_neg (by simp [hrest obj rfl])]
  show got = delivered stream
  rw [hstream, delivered, List.takeWhile_append_of_pos fun obj hobj => by simpa using hgot obj hobj,
    hstop, List.append_nil]

section Workers

variable {stream : ℕ → List Object} {s : Shared F} {conn other : ℕ} {obj : Object}

/-- Only what is received from a connection and put into the line matters to its thread. -/
theorem WorkerOk.congr {s' : Shared F} {worker : Worker} (h : WorkerOk conns stream s conn worker)
    (hreceived : valuesOf s'.received conn = valuesOf s.received conn)
    (hline : valuesOf s'.line conn = valuesOf s.line conn) :
    WorkerOk conns stream s' conn worker := by
  unfold WorkerOk at h ⊢
  rwa [hreceived, hline]

/-- An object of one connection is none of another's. -/
theorem valuesOf_append_other {entries : List (ℕ × Object)} (hne : other ≠ conn) :
    valuesOf (entries ++ [(conn, obj)]) other = valuesOf entries other := by
  rw [valuesOf_append, valuesOf_singleton, if_neg (Ne.symm hne), List.append_nil]

/-- It comes last among its own. -/
theorem valuesOf_append_self (entries : List (ℕ × Object)) :
    valuesOf (entries ++ [(conn, obj)]) conn = valuesOf entries conn ++ [obj] := by
  rw [valuesOf_append, valuesOf_singleton, if_pos rfl]

/-- What is put into the queue is put at the end of the line. -/
theorem line_put (s : Shared F) (entry : ℕ × Object) :
    Shared.line { s with pendingObjs := s.pendingObjs ++ [entry] } = s.line ++ [entry] := by
  simp only [Shared.line, List.append_assoc]

/-- A step of a connection's thread keeps the invariant, what holds of this thread, and what holds
of every other one. -/
theorem workerStep_kept {worker worker' : Worker} {s' : Shared F}
    (hinv : SharedInv packages conns s) (hok : WorkerOk conns stream s conn worker)
    (h : workerStep s conn worker () = some (s', worker')) :
    SharedInv packages conns s' ∧ WorkerOk conns stream s' conn worker' ∧
      ∀ other q, other ≠ conn → WorkerOk conns stream s other q →
        WorkerOk conns stream s' other q := by
  by_cases hconn : conn < conns
  swap
  · rw [WorkerOk, if_neg hconn] at hok
    subst hok
    cases h
  have hfollows := hok
  rw [WorkerOk, if_pos hconn] at hfollows
  -- a step that only moves the thread on
  have hquiet : ∀ next : Worker, next.held = worker.held → next.rest = worker.rest →
      SharedInv packages conns s ∧ WorkerOk conns stream s conn next ∧
        ∀ other q, other ≠ conn → WorkerOk conns stream s other q →
          WorkerOk conns stream s other q := by
    intro next hheld hrest
    refine ⟨hinv, ?_, fun _ _ _ hother => hother⟩
    rw [WorkerOk, if_pos hconn]
    exact ⟨by rw [hheld]; exact hfollows.here, by rw [hrest]; exact hfollows.later⟩
  cases worker with
  | resuming rest =>
    cases h
    split
    · exact hquiet _ rfl rfl
    · exact hquiet _ rfl rfl
  | asking rest =>
    cases h
    split
    · exact hquiet _ rfl rfl
    · exact hquiet _ rfl rfl
  | throttled rest =>
    cases h
    split
    · exact hquiet _ rfl rfl
    · exact hquiet _ rfl rfl
  | receiving rest =>
    have hhere : valuesOf s.received conn = valuesOf s.line conn :=
      hfollows.here.trans (List.append_nil _)
    obtain ⟨hstream, hgot⟩ := hfollows.later
    have hgone : (∀ obj ∈ rest.head?, obj.attrs = []) → SharedInv packages conns s ∧
        WorkerOk conns stream s conn .gone ∧ ∀ other q, other ≠ conn →
          WorkerOk conns stream s other q → WorkerOk conns stream s other q := by
      intro hrest
      refine ⟨hinv, ?_, fun _ _ _ hother => hother⟩
      rw [WorkerOk, if_pos hconn]
      exact Follows.gone hhere hgot hstream hrest
    cases rest with
    | nil =>
      cases h
      exact hgone fun _ hobj => nomatch hobj
    | cons obj rest =>
      rw [workerStep] at h
      by_cases hattrs : obj.attrs = []
      · rw [if_pos hattrs] at h
        cases h
        refine hgone fun other hother => ?_
        cases hother
        exact hattrs
      · rw [if_neg hattrs] at h
        cases h
        refine ⟨⟨hinv.attrs, hinv.replies, hinv.counted, hinv.requests⟩, ?_,
          fun other q hne hother => hother.congr (valuesOf_append_other hne) rfl⟩
        rw [WorkerOk, if_pos hconn]
        refine ⟨?_, ?_⟩
        · show valuesOf (s.received ++ [(conn, obj)]) conn = valuesOf s.line conn ++ [obj]
          rw [valuesOf_append_self, hhere]
        · show stream conn = valuesOf (s.received ++ [(conn, obj)]) conn ++ rest ∧ _
          rw [valuesOf_append_self, List.append_assoc, List.singleton_append]
          refine ⟨hstream, fun other hother => ?_⟩
          rcases List.mem_append.mp hother with hother | hother
          · exact hgot other hother
          · rw [List.mem_singleton.mp hother]
            exact hattrs
  | putting obj rest =>
    cases h
    refine ⟨⟨?_, hinv.replies, hinv.counted, hinv.requests⟩, ?_, fun other q hne hother => ?_⟩
    · intro entry hentry
      rw [line_put] at hentry
      rcases List.mem_append.mp hentry with hentry | hentry
      · exact hinv.attrs entry hentry
      · rw [List.mem_singleton.mp hentry]
        exact hfollows.attrs
    · rw [WorkerOk, if_pos hconn, line_put, valuesOf_append_self]
      exact ⟨hfollows.here.trans (List.append_nil _).symm, hfollows.later⟩
    · refine hother.congr rfl ?_
      rw [line_put, valuesOf_append_other hne]
  | gone => cases h

end Workers

/-! ## The thread that answers -/

section Moves

variable {stream : ℕ → List Object} {s s' : Shared F}

/-- How a round ends does not depend on the count. -/
theorem round_fst (turn : Turn F) (obj : Object) (count : ℕ) :
    (round packages turn obj count).1 = (round packages turn obj 0).1 := by
  unfold ProxyBlast.round
  repeat' split
  all_goals rfl

/-- The attributes of an object that is returned come first. -/
theorem prefix_of_returned {turn : Turn F} {obj reply : Object} {count : ℕ}
    (h : (round packages turn obj count).1 = .returned reply) : obj.attrs <+: reply.attrs := by
  unfold ProxyBlast.round at h
  repeat' split at h
  all_goals cases h
  all_goals simp only [List.append_assoc, List.prefix_append, List.prefix_rfl]

/-- After a round no object is held; it is returned, withheld, or lost with the thread, and the
request is still open. -/
theorem afterRound_spec (outcome : Outcome) :
    (afterRound outcome).held = [] ∧ (afterRound outcome).requests conns = conns + 1 ∧
      (afterRound outcome).returning.head?.toList = (afterRound outcome).returning := by
  cases outcome <;> exact ⟨rfl, rfl, rfl⟩

/-- An object is scored: it leaves the hands of the thread that answers, with the turn that it met,
and the line stays as it was. -/
theorem score_kept {conn : ℕ} {obj : Object} (hinv : SharedInv packages conns s)
    (hgetter : s.getter = .scoring conn obj) (turn : Turn F)
    (h : moveStep packages conns s (.score turn) = some s') :
    SharedInv packages conns s' ∧ s'.line = s.line ∧ s'.received = s.received := by
  simp only [moveStep, hgetter, Option.some.injEq] at h
  subst h
  obtain ⟨hheld, hrequests, hreturning⟩ :=
    @afterRound_spec conns (round packages turn obj s.droppedCount).1
  have hline : s.handled.map Entry.pair ++ s.getter.held ++ s.pendingObjs = s.line := rfl
  rw [hgetter] at hline
  let entry : Entry F := ⟨conn, obj, some turn⟩
  have hsame : (s.handled ++ [entry]).map Entry.pair ++
      (afterRound (round packages turn obj s.droppedCount).1).held ++ s.pendingObjs = s.line := by
    rw [hheld, List.map_append, List.append_nil]
    exact hline
  refine ⟨⟨?_, ?_, ?_, ?_⟩, hsame, rfl⟩
  · intro other hother
    exact hinv.attrs other (hsame ▸ hother)
  · have hbefore := hinv.replies
    rw [hgetter] at hbefore
    have hreply : entry.reply packages =
        (afterRound (round packages turn obj s.droppedCount).1).returning.head? := by
      rw [round_fst turn obj s.droppedCount]
      rfl
    show s.replies ++ (afterRound (round packages turn obj s.droppedCount).1).returning =
      (s.handled ++ [entry]).filterMap (Entry.reply packages)
    rw [List.filterMap_append, ← hbefore, ← hreturning, ← hreply]
    cases hentry : entry.reply packages <;> simp [hentry, Getter.returning]
  · have hcount := (round_spec packages (turn, obj) s.droppedCount).1
    show (round packages turn obj s.droppedCount).2 =
      (s.handled ++ [entry]).countP (Entry.sampled packages)
    rw [List.countP_append, ← hinv.counted, List.countP_singleton]
    show _ = s.droppedCount + if sampled packages (turn, obj) = true then 1 else 0
    rw [hcount]
    cases sampled packages (turn, obj) <;> rfl
  · have hbefore := hinv.requests
    rw [hgetter] at hbefore
    exact hbefore.trans hrequests.symm

/-- The thread that answers moves on and holds the same, and the second queue is what it should
be. -/
theorem SharedInv.moveOn (hinv : SharedInv packages conns s) {next : Getter} {requests : ℕ}
    (hheld : next.held = s.getter.held) (hreturning : next.returning = s.getter.returning)
    (hrequests : requests = next.requests conns) :
    SharedInv packages conns { s with pendingReqs := requests, getter := next } ∧
      Shared.line { s with pendingReqs := requests, getter := next } = s.line := by
  have hline : Shared.line { s with pendingReqs := requests, getter := next } = s.line := by
    simp only [Shared.line, hheld]
  refine ⟨⟨?_, ?_, hinv.counted, hrequests⟩, hline⟩
  · rw [hline]
    exact hinv.attrs
  · show s.replies ++ next.returning = _
    rw [hreturning]
    exact hinv.replies

/-- Clearing the first queue takes what waits there off the line, without a reply and without a
sample. -/
theorem SharedInv.clear (hinv : SharedInv packages conns s) (hgetter : s.getter = .clearingObjs) :
    let cleared : Shared F :=
      { s with
        pendingObjs := []
        getter := .clearingReqs
        handled := s.handled ++ s.pendingObjs.map fun entry => ⟨entry.1, entry.2, none⟩ }
    SharedInv packages conns cleared ∧ cleared.line = s.line := by
  have hrequests := hinv.requests
  have hreplies := hinv.replies
  rw [hgetter] at hrequests hreplies
  let entries : List (Entry F) := s.pendingObjs.map fun entry => ⟨entry.1, entry.2, none⟩
  have hpairs : entries.map Entry.pair = s.pendingObjs := by
    rw [List.map_map]
    exact List.map_id _
  have hline : s.handled.map Entry.pair ++ s.getter.held ++ s.pendingObjs = s.line := rfl
  have hsame : (s.handled ++ entries).map Entry.pair ++ [] ++ [] = s.line := by
    rw [List.map_append, hpairs, List.append_nil, List.append_nil, ← hline, hgetter]
    exact congrArg (· ++ _) (List.append_nil _).symm
  refine ⟨⟨fun entry hentry => hinv.attrs entry (hsame ▸ hentry), ?_, ?_, hrequests⟩, hsame⟩
  · have hnone : entries.filterMap (Entry.reply packages) = [] := by
      rw [List.filterMap_map]
      exact List.filterMap_eq_nil_iff.mpr fun _ _ => rfl
    show s.replies ++ [] = (s.handled ++ entries).filterMap (Entry.reply packages)
    rw [List.filterMap_append, hnone, ← hreplies]
    exact (List.append_nil _).symm
  · have hnone : entries.countP (Entry.sampled packages) = 0 := by
      rw [List.countP_map]
      exact List.countP_eq_zero.mpr fun _ _ => Bool.false_ne_true
    show s.droppedCount = (s.handled ++ entries).countP (Entry.sampled packages)
    rw [List.countP_append, hnone, Nat.add_zero]
    exact hinv.counted

/-- The first object of the queue is taken; it stays on the line, where the thread holds it. -/
theorem SharedInv.fetch (hinv : SharedInv packages conns s) (hgetter : s.getter = .fetching)
    {conn : ℕ} {obj : Object} {rest : List (ℕ × Object)}
    (hpending : s.pendingObjs = (conn, obj) :: rest) :
    let fetched : Shared F := { s with pendingObjs := rest, getter := .scoring conn obj }
    SharedInv packages conns fetched ∧ fetched.line = s.line := by
  have hrequests := hinv.requests
  have hreplies := hinv.replies
  rw [hgetter] at hrequests hreplies
  have hline : s.handled.map Entry.pair ++ s.getter.held ++ s.pendingObjs = s.line := rfl
  have hsame : s.handled.map Entry.pair ++ [(conn, obj)] ++ rest = s.line := by
    rw [← hline, hgetter, hpending, List.append_assoc, List.singleton_append]
    exact congrArg (· ++ _) (List.append_nil _).symm
  exact ⟨⟨fun entry hentry => hinv.attrs entry (hsame ▸ hentry), hreplies, hinv.counted, hrequests⟩,
    hsame⟩

/-- A token is taken off the second queue, and the object goes to the client. -/
theorem SharedInv.reply (hinv : SharedInv packages conns s) {obj : Object}
    (hgetter : s.getter = .removing obj) :
    let replied : Shared F :=
      { s with
        pendingReqs := s.pendingReqs - 1
        getter := .idle
        replies := s.replies ++ [obj] }
    SharedInv packages conns replied ∧ replied.line = s.line := by
  have hrequests := hinv.requests
  have hreplies := hinv.replies
  have hline : s.handled.map Entry.pair ++ s.getter.held ++ s.pendingObjs = s.line := rfl
  rw [hgetter] at hrequests hreplies hline
  refine ⟨⟨fun entry hentry => hinv.attrs entry (hline ▸ hentry),
    (List.append_nil _).trans hreplies, hinv.counted, ?_⟩, hline⟩
  show s.pendingReqs - 1 = conns
  rw [hrequests]
  rfl

/-- A step of the thread that answers, on its own, moves objects along the line or clears them away,
and adds none. -/
theorem advance_kept (hinv : SharedInv packages conns s) (h : advance conns s = some s') :
    SharedInv packages conns s' ∧ s'.line = s.line ∧ s'.received = s.received := by
  have hrequests := hinv.requests
  unfold advance at h
  cases hgetter : s.getter with
  | checking =>
    rw [hgetter] at h hrequests
    cases h
    by_cases hrunning : s.running = true
    · rw [if_pos hrunning]
      obtain ⟨hkept, hline⟩ := @SharedInv.moveOn F packages conns s hinv .adding s.pendingReqs
        (by rw [hgetter]; rfl) (by rw [hgetter]; rfl) hrequests
      exact ⟨hkept, hline, rfl⟩
    · rw [if_neg hrunning]
      obtain ⟨hkept, hline⟩ := @SharedInv.moveOn F packages conns s hinv .clearingObjs s.pendingReqs
        (by rw [hgetter]; rfl) (by rw [hgetter]; rfl) hrequests
      exact ⟨hkept, hline, rfl⟩
  | clearingObjs =>
    rw [hgetter] at h
    cases h
    obtain ⟨hkept, hline⟩ := hinv.clear hgetter
    exact ⟨hkept, hline, rfl⟩
  | clearingReqs =>
    rw [hgetter] at h
    cases h
    obtain ⟨hkept, hline⟩ := @SharedInv.moveOn F packages conns s hinv .refilling 0
      (by rw [hgetter]; rfl) (by rw [hgetter]; rfl) rfl
    exact ⟨hkept, hline, rfl⟩
  | refilling =>
    rw [hgetter] at h hrequests
    cases h
    obtain ⟨hkept, hline⟩ := @SharedInv.moveOn F packages conns s hinv .checking
      (s.pendingReqs + conns) (by rw [hgetter]; rfl) (by rw [hgetter]; rfl)
      (by rw [hrequests]; exact Nat.zero_add conns)
    exact ⟨hkept, hline, rfl⟩
  | adding =>
    rw [hgetter] at h hrequests
    cases h
    obtain ⟨hkept, hline⟩ := @SharedInv.moveOn F packages conns s hinv .fetching
      (s.pendingReqs + 1) (by rw [hgetter]; rfl) (by rw [hgetter]; rfl) (by rw [hrequests]; rfl)
    exact ⟨hkept, hline, rfl⟩
  | fetching =>
    rw [hgetter] at h hrequests
    cases hpending : s.pendingObjs with
    | nil =>
      simp only [hpending, Option.some.injEq] at h
      subst h
      exact ⟨hinv, rfl, rfl⟩
    | cons entry rest =>
      simp only [hpending, Option.some.injEq] at h
      subst h
      obtain ⟨hkept, hline⟩ := hinv.fetch hgetter hpending
      exact ⟨hkept, hline, rfl⟩
  | removing obj =>
    rw [hgetter] at h
    cases h
    obtain ⟨hkept, hline⟩ := hinv.reply hgetter
    exact ⟨hkept, hline, rfl⟩
  | idle =>
    rw [hgetter] at h
    cases h
  | scoring conn obj =>
    rw [hgetter] at h
    cases h
  | dead =>
    rw [hgetter] at h
    cases h

/-- A step of the thread that answers, or of the one that trains, keeps the invariant and the
line. -/
theorem moveStep_kept {move : Move F} (hinv : SharedInv packages conns s)
    (h : moveStep packages conns s move = some s') :
    SharedInv packages conns s' ∧ s'.line = s.line ∧ s'.received = s.received := by
  cases move with
  | request =>
    unfold moveStep at h
    cases hgetter : s.getter <;> rw [hgetter] at h <;> cases h
    have hrequests := hinv.requests
    rw [hgetter] at hrequests
    obtain ⟨hkept, hline⟩ := @SharedInv.moveOn F packages conns s hinv .checking s.pendingReqs
      (by rw [hgetter]; rfl) (by rw [hgetter]; rfl) hrequests
    exact ⟨hkept, hline, rfl⟩
  | advance => exact advance_kept hinv h
  | score turn =>
    cases hgetter : s.getter with
    | scoring conn obj => exact score_kept hinv hgetter turn h
    | _ =>
      rw [moveStep, hgetter] at h
      cases h
  | setRunning running =>
    cases h
    exact ⟨⟨hinv.attrs, hinv.replies, hinv.counted, hinv.requests⟩, rfl, rfl⟩

end Moves

/-! ## Whole runs -/

section Whole

variable {stream : ℕ → List Object} {labels : List (Label Unit (Move F))}
variable {s t : System (Shared F) Worker}

/-- At the start no object has been received, and the queue of requests is filled once. -/
theorem initial_holds (stream : ℕ → List Object) :
    Holds (SharedInv packages conns) (WorkerOk conns stream)
      (initial conns stream : System (Shared F) Worker) := by
  refine ⟨⟨nofun, rfl, rfl, rfl⟩, fun conn => ?_⟩
  unfold WorkerOk
  by_cases hconn : conn < conns
  · rw [if_pos hconn]
    show Follows (stream conn) [] [] (if conn < conns then .resuming (stream conn) else .gone)
    rw [if_pos hconn]
    exact ⟨rfl, rfl, nofun⟩
  · rw [if_neg hconn]
    exact if_neg hconn

/-- What the threads keep holds in every state that they reach, whatever the order of their
steps. -/
theorem run_holds (h : exec (proxyStep packages conns) (initial conns stream) labels = some t) :
    Holds (SharedInv packages conns) (WorkerOk conns stream) t := by
  refine exec_holds_of_steps ?_ ?_ (initial_holds stream) h
  · intro s conn worker _ s' worker' hinv hok hstep
    exact workerStep_kept hinv hok hstep
  · intro s move s' hinv hstep
    obtain ⟨hkept, hline, hreceived⟩ := moveStep_kept hinv hstep
    exact ⟨hkept, fun conn worker hworker => hworker.congr (by rw [hreceived]) (by rw [hline])⟩

/-- What is in the line comes from the connection, in order, and at the end it is all there. -/
theorem Follows.delivered {source got line : List Object} {worker : Worker}
    (h : Follows source got line worker) :
    line ++ worker.held <+: delivered source ∧ (worker = .gone → line = delivered source) := by
  have hhere := h.here
  have hlater := h.later
  constructor
  · rw [← hhere]
    cases hrest : worker.rest with
    | none =>
      rw [hrest] at hlater
      exact hlater ▸ List.prefix_rfl
    | some rest =>
      rw [hrest] at hlater
      obtain ⟨hsource, hgot⟩ := hlater
      rw [hsource, ProxyStream.delivered,
        List.takeWhile_append_of_pos fun obj hobj => by simpa using hgot obj hobj]
      exact List.prefix_append _ _
  · rintro rfl
    exact (List.append_nil _).symm.trans (hhere.symm.trans hlater)

/-- The thread that answers empties the queues. -/
def Getter.clears : Getter → Bool
  | .clearingObjs => true
  | .clearingReqs => true
  | .refilling => true
  | _ => false

/-- No object was cleared away, and none is going to be. -/
structure Kept (s : Shared F) : Prop where
  /-- The flag. -/
  running : s.running = true
  /-- Nothing is emptied. -/
  getter : s.getter.clears = false
  /-- All that has left the queue was taken. -/
  taken : ∀ entry ∈ s.handled, entry.turn.isSome

/-- While no training begins, the thread that answers never empties the queues. -/
theorem Kept.moveStep {s s' : Shared F} {move : Move F} (hkept : Kept s)
    (hmove : move ≠ .setRunning false) (h : moveStep packages conns s move = some s') : Kept s' := by
  obtain ⟨hrunning, hgetter, htaken⟩ := hkept
  cases move with
  | request =>
    unfold ProxyStream.moveStep at h
    cases hwhere : s.getter <;> rw [hwhere] at h <;> cases h
    exact ⟨hrunning, rfl, htaken⟩
  | advance =>
    simp only [ProxyStream.moveStep, advance] at h
    cases hwhere : s.getter with
    | checking =>
      rw [hwhere] at h
      cases h
      exact ⟨hrunning, by rw [if_pos hrunning]; rfl, htaken⟩
    | fetching =>
      rw [hwhere] at h
      dsimp only at h
      split at h
      · cases h
        exact ⟨hrunning, hgetter, htaken⟩
      · cases h
        exact ⟨hrunning, rfl, htaken⟩
    | adding =>
      rw [hwhere] at h
      cases h
      exact ⟨hrunning, rfl, htaken⟩
    | removing obj =>
      rw [hwhere] at h
      cases h
      exact ⟨hrunning, rfl, htaken⟩
    | clearingObjs | clearingReqs | refilling =>
      rw [hwhere] at hgetter
      cases hgetter
    | _ =>
      rw [hwhere] at h
      cases h
  | score turn =>
    unfold ProxyStream.moveStep at h
    cases hwhere : s.getter <;> rw [hwhere] at h <;> cases h
    refine ⟨hrunning, ?_, fun entry hentry => ?_⟩
    · cases (round packages turn _ s.droppedCount).1 <;> rfl
    · rcases List.mem_append.mp hentry with hentry | hentry
      · exact htaken entry hentry
      · rw [List.mem_singleton.mp hentry]
        rfl
  | setRunning running =>
    cases h
    cases running with
    | true => exact ⟨rfl, hgetter, htaken⟩
    | false => exact absurd rfl hmove

/-- The threads of the connections clear nothing away. -/
theorem Kept.workerStep {s s' : Shared F} {conn : ℕ} {worker worker' : Worker} (hkept : Kept s)
    (h : workerStep s conn worker () = some (s', worker')) : Kept s' := by
  cases worker with
  | receiving rest =>
    cases rest with
    | nil =>
      cases h
      exact hkept
    | cons obj rest =>
      rw [ProxyStream.workerStep] at h
      split at h
      · cases h
        exact hkept
      · cases h
        exact ⟨hkept.running, hkept.getter, hkept.taken⟩
  | putting obj rest =>
    cases h
    exact ⟨hkept.running, hkept.getter, hkept.taken⟩
  | gone => cases h
  | _ =>
    cases h
    exact hkept

/-- While the models are not trained, no object is cleared away without its turn. -/
theorem turn_of_running
    (h : exec (proxyStep packages conns) (initial conns stream) labels = some t)
    (hrunning : Label.env (.setRunning false) ∉ labels) :
    ∀ entry ∈ t.shared.handled, entry.turn.isSome := by
  have hkept : Kept t.shared := by
    refine exec_invariant_of_mem (I := fun s => Kept s.shared) ?_
      ⟨rfl, rfl, fun _ hentry => absurd hentry List.not_mem_nil⟩ h
    intro label hlabel s u hs hu
    cases label with
    | proc conn choice =>
      obtain ⟨shared, worker, hstep, rfl⟩ := step_proc_eq_some.mp hu
      exact hs.workerStep hstep
    | env move =>
      obtain ⟨shared, hstep, rfl⟩ := step_env_eq_some.mp hu
      refine hs.moveStep ?_ hstep
      rintro rfl
      exact hrunning hlabel
  exact hkept.taken

/-- The proxy has a request, and no object will come. -/
structure Ended (s : System (Shared F) Worker) : Prop where
  /-- The request. -/
  fetching : s.shared.getter = .fetching
  /-- The queue. -/
  empty : s.shared.pendingObjs = []
  /-- The connections. -/
  gone : ∀ conn, s.procs conn = .gone

/-- The client gets no answer any more. -/
theorem Ended.replies (hended : Ended s) (h : exec (proxyStep packages conns) s labels = some t) :
    Ended t ∧ t.shared.replies = s.shared.replies := by
  refine exec_invariant (I := fun u => Ended u ∧ u.shared.replies = s.shared.replies) ?_
    ⟨hended, rfl⟩ h
  rintro u label v ⟨hu, hreplies⟩ hstep
  cases label with
  | proc conn choice =>
    obtain ⟨shared, worker, hworker, -⟩ := step_proc_eq_some.mp hstep
    rw [hu.gone conn] at hworker
    cases hworker
  | env move =>
    obtain ⟨shared, hmove, rfl⟩ := step_env_eq_some.mp hstep
    cases move with
    | setRunning running =>
      cases hmove
      exact ⟨⟨hu.fetching, hu.empty, hu.gone⟩, hreplies⟩
    | advance =>
      simp only [moveStep, advance, hu.fetching, hu.empty, Option.some.injEq] at hmove
      subst hmove
      exact ⟨⟨hu.fetching, hu.empty, hu.gone⟩, hreplies⟩
    | _ =>
      simp only [moveStep, hu.fetching] at hmove
      cases hmove

/-- A reply has the attributes of an object that was taken. -/
theorem reply_attrs {entry : Entry F} {obj : Object} (h : entry.reply packages = some obj) :
    entry.obj.attrs <+: obj.attrs := by
  obtain ⟨turn, -, hround⟩ := Option.bind_eq_some_iff.mp h
  cases houtcome : (round packages turn entry.obj 0).1 with
  | returned reply =>
    rw [houtcome] at hround
    cases hround
    exact prefix_of_returned houtcome
  | withheld =>
    rw [houtcome] at hround
    cases hround
  | raised =>
    rw [houtcome] at hround
    cases hround

/-- In every state the objects of each connection are on their way in order, at the end all of them;
the client has got the replies to those that were taken, and the samples among them are counted.
None is cleared away unless the models are trained, and no connection waits for a request while the
queues are not being emptied. But the client is never told that the search has ended: no reply is
without attributes, and a request after the last object is never answered. -/
theorem stream_accounted
    (h : exec (proxyStep packages conns) (initial conns stream) labels = some t) :
    (∀ conn < conns,
      valuesOf t.shared.line conn ++ (t.procs conn).held <+: delivered (stream conn) ∧
        (t.procs conn = .gone → valuesOf t.shared.line conn = delivered (stream conn))) ∧
    t.shared.replies ++ t.shared.getter.returning =
      t.shared.handled.filterMap (Entry.reply packages) ∧
    t.shared.droppedCount = t.shared.handled.countP (Entry.sampled packages) ∧
    (Label.env (.setRunning false) ∉ labels → ∀ entry ∈ t.shared.handled, entry.turn.isSome) ∧
    (t.shared.pendingReqs = 0 → conns = 0 ∨ t.shared.getter = .refilling) ∧
    (∀ obj ∈ t.shared.replies, obj.attrs ≠ []) ∧
    (Ended t → ∀ more u, exec (proxyStep packages conns) t more = some u →
      u.shared.replies = t.shared.replies) := by
  obtain ⟨hinv, hworkers⟩ := run_holds h
  refine ⟨fun conn hconn => ?_, hinv.replies, hinv.counted, turn_of_running h, fun hzero => ?_,
    fun obj hobj => ?_, fun hended more u hmore => (hended.replies hmore).2⟩
  · have hworker := hworkers conn
    rw [WorkerOk, if_pos hconn] at hworker
    exact hworker.delivered
  · have hrequests := hinv.requests
    rw [hzero] at hrequests
    cases hgetter : t.shared.getter with
    | refilling => exact Or.inr rfl
    | _ =>
      rw [hgetter] at hrequests
      simp only [Getter.requests] at hrequests
      omega
  · have hmem : obj ∈ t.shared.handled.filterMap (Entry.reply packages) := by
      rw [← hinv.replies]
      exact List.mem_append_left _ hobj
    obtain ⟨entry, hentry, hreply⟩ := List.mem_filterMap.mp hmem
    have hattrs : entry.obj.attrs ≠ [] := by
      refine hinv.attrs entry.pair ?_
      rw [Shared.line, List.append_assoc]
      exact List.mem_append_left _ (List.mem_map_of_mem hentry)
    intro hnil
    have hbegins := reply_attrs hreply
    rw [hnil] at hbegins
    exact hattrs (List.prefix_nil.mp hbegins)

end Whole

/-! ## Two connections -/

/-- An object with a name. -/
def sampleObject (name : UInt8) : Object := ⟨[⟨"_ObjectID", [name, 0]⟩]⟩

/-- The first connection delivers two objects and fails; the second one delivers an object with
features and tells of the end of the search. -/
def sampleStream : ℕ → List Object
  | 0 => [sampleObject 97, sampleObject 98]
  | _ => [(unlikely 0.5).2, ⟨[]⟩]

/-- A proxy without models. -/
def sampleTurn : Turn Unit := ⟨false, fun _ => none, 0⟩

/-- A connection puts its next object into the queue. -/
def delivering (conn : ℕ) : List (Label Unit (Move Unit)) := List.replicate 5 (.proc conn ())

/-- A connection ends. -/
def ending (conn : ℕ) : List (Label Unit (Move Unit)) := List.replicate 4 (.proc conn ())

/-- The client asks for an object. -/
def asking : List (Label Unit (Move Unit)) := [.env .request, .env .advance, .env .advance]

/-- The next object of the queue is returned. -/
def returning : List (Label Unit (Move Unit)) :=
  [.env .advance, .env (.score sampleTurn), .env .advance]

/-- The object of the second connection comes first and is withheld; the client gets those of the
first one, the connections end, and the client asks again. -/
def sampleLabels : List (Label Unit (Move Unit)) :=
  delivering 1 ++ delivering 0 ++ asking ++ [.env .advance, .env (.score (unlikely 0.5).1)] ++
    returning ++ delivering 0 ++ asking ++ returning ++ ending 0 ++ ending 1 ++ asking

/-- The run of the sample answers two requests, and leaves the third one open. -/
theorem exec_sampleLabels : ∃ t,
    exec (proxyStep samplePackages 2) (initial 2 sampleStream) sampleLabels = some t ∧
      t.shared.replies = [sampleObject 97, sampleObject 98] ∧ Ended t := by
  refine ⟨_, rfl, rfl, rfl, rfl, fun conn => ?_⟩
  match conn with
  | 0 => rfl
  | 1 => rfl
  | conn + 2 => simp [initial]

/-- At the end of this run each connection's objects have been in the line in their order, and no
further step answers the client. -/
theorem stream_accounted_two :
    ∃ t, exec (proxyStep samplePackages 2) (initial 2 sampleStream) sampleLabels = some t ∧
      valuesOf t.shared.line 0 = [sampleObject 97, sampleObject 98] ∧
      valuesOf t.shared.line 1 = [(unlikely 0.5).2] ∧
      t.shared.replies = [sampleObject 97, sampleObject 98] ∧ Ended t ∧
      ∀ more u, exec (proxyStep samplePackages 2) t more = some u →
        u.shared.replies = [sampleObject 97, sampleObject 98] := by
  obtain ⟨t, hrun, hreplies, hended⟩ := exec_sampleLabels
  obtain ⟨hdelivered, -, -, -, -, -, hsilent⟩ := stream_accounted hrun
  refine ⟨t, hrun, (hdelivered 0 (by decide)).2 (hended.gone 0),
    (hdelivered 1 (by decide)).2 (hended.gone 1), hreplies, hended, fun more u hmore => ?_⟩
  rw [hsilent hended more u hmore, hreplies]

end OpenDiamond.ProxyStream
