import Mathlib.Algebra.BigOperators.Group.Finset.Basic
import OpenDiamond.Lib.Processes
import OpenDiamond.RpcClient

/-!
# The blast channel of a running search

A thread of the search puts the objects of the scope on a joinable queue; worker
processes take them off, evaluate them and send the accepted ones on the blast channel,
each as the reply to one request of the client. When every object is accounted for, the
thread sends an empty object. All senders share one connection and its lock. The steps of
the workers, of the thread and of the client interleave in any order.
-/

namespace OpenDiamond.BlastChannel

open Lib.Processes Lib.Runs Lib.Sockets Xdr Protocol Rpc RpcClient

/-! ## One sender -/

/-- `_BlastChannelSender.get_object` over the `_sent` flag; the other procedures are not
offered on the blast channel. -/
def getObject (obj : Value) : Name → Option Value → Bool → Outcome × Bool
  | .getObject, _, sent => if sent then (.crashed, sent) else (.returned (some obj), true)
  | _, _, sent => (.crashed, sent)

/-- A `_BlastChannelSender` as a handler object. -/
def senderHandlers (obj : Value) : Handlers Bool := channelHandlers .blast (getObject obj)

/-- What a sender sends. -/
inductive Payload where
  /-- The object of the scope with an index. -/
  | object (index : ℕ)
  /-- The empty object at the end of the search. -/
  | ended
deriving DecidableEq, Repr

/-- Where a sender is in its loop. -/
inductive Phase where
  /-- Before the test of the loop. -/
  | outside
  /-- Inside `dispatch`, with the lock. -/
  | inside
  /-- At the end of `dispatch`, still with the lock. -/
  | answered
deriving DecidableEq, Repr

/-- A sender in the loop of its method `send`. -/
structure Sender where
  /-- What is sent. -/
  payload : Payload
  /-- Its encoding as an `XDR_object`. -/
  obj : Value
  /-- The flag `_sent`. -/
  sent : Bool
  /-- The point that the loop has reached. -/
  phase : Phase

/-- `_BlastChannelSender.__init__`. -/
def Sender.new (payload : Payload) (obj : Value) : Sender := ⟨payload, obj, false, .outside⟩

/-- `EmptyObject().xdr()`. -/
def emptyXdr : Value := .struct xdrObject.name [("attrs", .list [])]

/-! ## The state of a search -/

/-- An object on its way through the search, with its index in the scope. -/
structure Task (α : Type) where
  /-- The position in the scope. -/
  index : ℕ
  /-- The object. -/
  obj : α

/-- How far an object has got. -/
inductive Stage where
  /-- There is no such object. -/
  | unknown
  | inScope
  | queued
  /-- A worker is at it. -/
  | taken (pid : ℕ)
  | done
deriving DecidableEq, Repr

/-- A request of the client with the reply that was sent to it. -/
structure Exchange where
  /-- The request. -/
  request : Frame
  /-- The reply. -/
  reply : Frame
  /-- What the reply delivers. -/
  delivered : Option Payload

/-- What has happened so far. It is kept for the statements, and no step reads it. -/
structure Record (α : Type) where
  /-- How far every object has got. -/
  stage : ℕ → Stage
  /-- The verdict of the evaluation, with the object as the evaluation left it. -/
  verdict : ℕ → Option (Bool × α)
  /-- The messages that the client has sent. -/
  arrived : List Frame
  /-- The requests that were answered, in order. -/
  exchanges : List Exchange

/-- What the processes of the search share. -/
structure Shared (α : Type) where
  /-- The objects that the scope has yet to yield. -/
  scope : List (Task α)
  /-- The objects on the queue. -/
  queue : List (Task α)
  /-- The unfinished tasks of the queue. -/
  unfinished : ℕ
  /-- The process that holds the lock of the connection. -/
  lock : Option ℕ
  /-- The socket of the blast channel. -/
  sock : Socket
  /-- What has happened so far. -/
  record : Record α

/-- A process of the search. -/
inductive Proc (α : Type) where
  /-- A process that was never started. -/
  | absent
  /-- A worker in `get` of the queue. -/
  | idle
  | evaluating (task : Task α)
  | sending (task : Task α) (sender : Sender)
  /-- A worker before `task_done`. -/
  | reporting (task : Task α)
  /-- The thread in the loop over the scope. -/
  | enqueuing
  /-- The thread in `join` of the queue. -/
  | joining
  /-- The thread in `close` of the blast channel. -/
  | closing (sender : Sender)
  | finished

/-- How a process resolves its choices. -/
inductive Choice (α : Type) where
  | next
  /-- The evaluation of an object: its verdict, and the object that it leaves. -/
  | evaluate (accept : Bool) (obj : α)

variable {α : Type}

/-! ## Steps -/

/-- The capacity of the queue. -/
def maxsize : ℕ := 1000

/-- `put` of the next object of the scope. -/
def Shared.put (s : Shared α) (task : Task α) (rest : List (Task α)) : Shared α :=
  { s with
    scope := rest
    queue := s.queue ++ [task]
    unfinished := s.unfinished + 1
    record := { s.record with stage := Function.update s.record.stage task.index .queued } }

/-- `get` of the first object on the queue. -/
def Shared.take (s : Shared α) (pid : ℕ) (task : Task α) (rest : List (Task α)) : Shared α :=
  { s with
    queue := rest
    record := { s.record with stage := Function.update s.record.stage task.index (.taken pid) } }

/-- The evaluation of an object. -/
def Shared.judge (s : Shared α) (index : ℕ) (accept : Bool) (obj : α) : Shared α :=
  { s with record := { s.record with
      verdict := Function.update s.record.verdict index (some (accept, obj)) } }

/-- `task_done`. -/
def Shared.taskDone (s : Shared α) (index : ℕ) : Shared α :=
  { s with
    unfinished := s.unfinished - 1
    record := { s.record with stage := Function.update s.record.stage index .done } }

/-- The exchange that a call of `dispatch` makes. -/
def exchangeOf (sender : Sender) (sock : Socket) : Option Exchange :=
  match (receive sock).1 with
  | .error _ => none
  | .ok request =>
    let frame : Frame := ⟨request.hdr.sequence, request.hdr.status, request.hdr.cmd, request.data⟩
    match respond (senderHandlers sender.obj) request sender.sent with
    | (.error _, _) => none
    | (.ok (status, body), sent) =>
      some ⟨frame, frame.reply status body, if sent then some sender.payload else none⟩

/-- The shared state after a call of `dispatch`. -/
def Shared.exchange (s : Shared α) (sender : Sender) (sock : Socket) : Shared α :=
  { s with
    sock := sock
    record := { s.record with
      exchanges := s.record.exchanges ++ (exchangeOf sender s.sock).toList } }

/-- One step of the loop of `_BlastChannelSender.send`, no sender when the loop ends. A call
of `dispatch` waits for a request; a process that raises makes no further step. -/
def senderStep (s : Shared α) (pid : ℕ) (sender : Sender) : Option (Shared α × Option Sender) :=
  match sender.phase with
  | .outside =>
    if sender.sent then some (s, none)
    else if s.lock = none then
      some ({ s with lock := some pid }, some { sender with phase := .inside })
    else none
  | .inside =>
    match dispatch (senderHandlers sender.obj) ⟨s.sock, sender.sent⟩ with
    | (.ok (), server) =>
      some (s.exchange sender server.sock,
        some { sender with sent := server.state, phase := .answered })
    | (.error _, _) => none
  | .answered => some ({ s with lock := none }, some { sender with phase := .outside })

/-- A worker after a step of its sender. -/
def Proc.afterSend (task : Task α) : Option Sender → Proc α
  | some sender => .sending task sender
  | none => .reporting task

/-- The thread after a step of its sender. -/
def Proc.afterClose : Option Sender → Proc α
  | some sender => .closing sender
  | none => .finished

/-- One step of a process: `FilterStackRunner.run` for the workers, `enqueue_scope` for the
thread. -/
def call (xdr : α → Value) (s : Shared α) (pid : ℕ) :
    Proc α → Choice α → Option (Shared α × Proc α)
  | .idle, .next =>
    match s.queue with
    | task :: rest => some (s.take pid task rest, .evaluating task)
    | [] => none
  | .evaluating task, .evaluate accept obj =>
    some (s.judge task.index accept obj,
      if accept then .sending task (.new (.object task.index) (xdr obj)) else .reporting task)
  | .sending task sender, .next =>
    (senderStep s pid sender).map fun next => (next.1, .afterSend task next.2)
  | .reporting task, .next =>
    -- `task_done` raises when it is called too often
    if s.unfinished = 0 then none else some (s.taskDone task.index, .idle)
  | .enqueuing, .next =>
    match s.scope with
    | task :: rest =>
      if s.queue.length < maxsize then some (s.put task rest, .enqueuing) else none
    | [] => some (s, .joining)
  | .joining, .next =>
    if s.unfinished = 0 then some (s, .closing (.new .ended emptyXdr)) else none
  | .closing sender, .next =>
    (senderStep s pid sender).map fun next => (next.1, .afterClose next.2)
  | _, _ => none

/-- The client sends a message. -/
def arrive (s : Shared α) (frame : { frame : Frame // frame.InRange }) : Option (Shared α) :=
  some { s with
    sock := { s.sock with incoming := s.sock.incoming ++ frame.val.wire }
    record := { s.record with arrived := s.record.arrived ++ [frame.val] } }

/-- One step of the search. -/
def searchStep (xdr : α → Value) : System (Shared α) (Proc α) →
    Label (Choice α) { frame : Frame // frame.InRange } → Option (System (Shared α) (Proc α)) :=
  step (call xdr) arrive

/-- The objects of a scope with their indices. -/
def tasks (objs : List α) : List (Task α) := objs.zipIdx.map fun entry => ⟨entry.2, entry.1⟩

/-- `start_threads`: the thread is process 0, the workers are the processes after it. The
socket may deliver in any chunks. -/
def initial (count : ℕ) (objs : List α) (schedule : ℕ → ℕ) : System (Shared α) (Proc α) where
  shared := {
    scope := tasks objs
    queue := []
    unfinished := 0
    lock := none
    sock := ⟨[], schedule, [], false⟩
    record := {
      stage := fun index => if index < objs.length then .inScope else .unknown
      verdict := fun _ => none
      arrived := []
      exchanges := [] } }
  procs pid := if pid = 0 then .enqueuing else if pid ≤ count then .idle else .absent

/-! ## What every run keeps -/

/-- An object that was put on the queue and is not done. -/
def Stage.isOpen : Stage → Bool
  | .queued => true
  | .taken _ => true
  | _ => false

/-- How often a payload was delivered. -/
def deliveries (exchanges : List Exchange) (payload : Payload) : ℕ :=
  exchanges.countP fun exchange => exchange.delivered = some payload

/-- Every object of the scope is done. -/
def AllDone (stage : ℕ → Stage) : Prop := ∀ index, stage index = .unknown ∨ stage index = .done

/-- The object has a verdict, and was delivered exactly if it is accepted. -/
def Settled (verdict : ℕ → Option (Bool × α)) (exchanges : List Exchange) (index : ℕ) : Prop :=
  ∃ accept obj, verdict index = some (accept, obj) ∧
    deliveries exchanges (.object index) = if accept then 1 else 0

/-- The value that stands for a payload: an accepted object as the evaluation left it, or the
empty object. -/
def Carries (xdr : α → Value) (verdict : ℕ → Option (Bool × α)) : Payload → Value → Prop
  | .object index, value => ∃ obj, verdict index = some (true, obj) ∧ value = xdr obj
  | .ended, value => value = emptyXdr

/-- The reply is the one owed to the request by a sender of the delivered payload. -/
def Exchange.Valid (xdr : α → Value) (verdict : ℕ → Option (Bool × α)) (exchange : Exchange) :
    Prop :=
  ∃ value, Answered (senderHandlers value) exchange.request false exchange.reply
      exchange.delivered.isSome ∧
    ∀ payload, exchange.delivered = some payload → Carries xdr verdict payload value

/-- The stages of the objects are where the scope and the queue have them, and the queue
counts the open ones. -/
structure QueueInv (total : ℕ) (scope queue : List (Task α)) (unfinished : ℕ)
    (stage : ℕ → Stage) : Prop where
  known : ∀ index, stage index = .unknown ↔ total ≤ index
  scopeNodup : (scope.map Task.index).Nodup
  scopeStage : ∀ index, stage index = .inScope ↔ index ∈ scope.map Task.index
  queueNodup : (queue.map Task.index).Nodup
  queueStage : ∀ index, stage index = .queued ↔ index ∈ queue.map Task.index
  counted : ∃ opened : List ℕ, opened.Nodup ∧ opened.length = unfinished ∧
    ∀ index, index ∈ opened ↔ (stage index).isOpen = true

/-- What the verdicts and the deliveries say of objects that no worker is at. -/
structure LedgerInv (stage : ℕ → Stage) (verdict : ℕ → Option (Bool × α))
    (exchanges : List Exchange) : Prop where
  fresh : ∀ index, stage index ≠ .done → (∀ pid, stage index ≠ .taken pid) →
    verdict index = none ∧ deliveries exchanges (.object index) = 0
  settled : ∀ index, stage index = .done → Settled verdict exchanges index
  ended : deliveries exchanges .ended ≠ 0 → AllDone stage
  last : exchanges.Pairwise fun exchange later =>
    exchange.delivered = some .ended → later.delivered = none

/-- The socket holds the messages that were not received, and has sent the replies. -/
structure StreamInv (xdr : α → Value) (verdict : ℕ → Option (Bool × α)) (arrived : List Frame)
    (exchanges : List Exchange) (sock : Socket) : Prop where
  inRange : ∀ frame ∈ arrived, frame.InRange
  incoming : ∃ consumed inbox, arrived = consumed ++ inbox ∧ sock.incoming = wire inbox ∧
    consumed.filter Frame.isRequest = exchanges.map Exchange.request
  outgoing : sock.outgoing = wire (exchanges.map Exchange.reply)
  valid : ∀ exchange ∈ exchanges, exchange.Valid xdr verdict

/-- The invariant of the shared state. -/
structure SharedInv (xdr : α → Value) (total : ℕ) (s : Shared α) : Prop where
  queue : QueueInv total s.scope s.queue s.unfinished s.record.stage
  ledger : LedgerInv s.record.stage s.record.verdict s.record.exchanges
  stream : StreamInv xdr s.record.verdict s.record.arrived s.record.exchanges s.sock

/-- The index of the object that a worker is at. -/
def Proc.index : Proc α → Option ℕ
  | .evaluating task => some task.index
  | .sending task _ => some task.index
  | .reporting task => some task.index
  | _ => none

/-- The process holds the lock of the connection. -/
def Proc.holds : Proc α → Bool
  | .sending _ sender => sender.phase ≠ .outside
  | .closing sender => sender.phase ≠ .outside
  | _ => false

/-- The process is the thread that fills the queue. -/
def Proc.isThread : Proc α → Bool
  | .enqueuing => true
  | .joining => true
  | .closing _ => true
  | .finished => true
  | _ => false

/-- The flag of a sender tells whether its payload was delivered. -/
structure SenderOk (xdr : α → Value) (s : Shared α) (payload : Payload) (sender : Sender) :
    Prop where
  sends : sender.payload = payload
  carries : Carries xdr s.record.verdict payload sender.obj
  sent : deliveries s.record.exchanges payload = if sender.sent then 1 else 0
  inside : sender.phase = .inside → sender.sent = false

/-- What holds at the point that a process has reached. -/
def Place (xdr : α → Value) (s : Shared α) : Proc α → Prop
  | .evaluating task => s.record.verdict task.index = none ∧
      deliveries s.record.exchanges (.object task.index) = 0
  | .sending task sender => SenderOk xdr s (.object task.index) sender
  | .reporting task => Settled s.record.verdict s.record.exchanges task.index
  | .enqueuing => deliveries s.record.exchanges .ended = 0
  | .joining => s.scope = [] ∧ deliveries s.record.exchanges .ended = 0
  | .closing sender => AllDone s.record.stage ∧ SenderOk xdr s .ended sender
  | .finished => AllDone s.record.stage ∧ deliveries s.record.exchanges .ended = 1
  | _ => True

/-- What holds of a process. -/
structure ProcOk (xdr : α → Value) (s : Shared α) (pid : ℕ) (p : Proc α) : Prop where
  lock : p.holds = true ↔ s.lock = some pid
  owns : ∀ index, s.record.stage index = .taken pid ↔ p.index = some index
  thread : p.isThread = true ↔ pid = 0
  place : Place xdr s p

/-- A change of the shared state that leaves alone what a process relies on. -/
structure Undisturbed (s s' : Shared α) (pid : ℕ) : Prop where
  lock : s'.lock = some pid ↔ s.lock = some pid
  stage : ∀ index, s'.record.stage index = .taken pid ↔ s.record.stage index = .taken pid
  verdict : ∀ index, s.record.stage index = .taken pid →
    s'.record.verdict index = s.record.verdict index
  delivered : ∀ index, s.record.stage index = .taken pid →
    deliveries s'.record.exchanges (.object index) = deliveries s.record.exchanges (.object index)
  ended : pid = 0 → deliveries s'.record.exchanges .ended = deliveries s.record.exchanges .ended
  scope : s.scope = [] → s'.scope = []
  allDone : AllDone s.record.stage → AllDone s'.record.stage

/-- A sender stays as it should be when others only judge further tasks and do not touch what was
delivered of its payload. -/
theorem SenderOk.undisturbed {xdr : α → Value} {s s' : Shared α} {payload : Payload}
    {sender : Sender} (h : SenderOk xdr s payload sender)
    (hcarries : ∀ value, Carries xdr s.record.verdict payload value →
      Carries xdr s'.record.verdict payload value)
    (hdelivered : deliveries s'.record.exchanges payload = deliveries s.record.exchanges payload) :
    SenderOk xdr s' payload sender :=
  ⟨h.sends, hcarries _ h.carries, hdelivered.trans h.sent, h.inside⟩

/-- A process that is not disturbed stays as it is. -/
theorem ProcOk.undisturbed {xdr : α → Value} {s s' : Shared α} {pid : ℕ} {p : Proc α}
    (h : ProcOk xdr s pid p) (hsame : Undisturbed s s' pid) : ProcOk xdr s' pid p := by
  refine ⟨h.lock.trans hsame.lock.symm, fun index => (hsame.stage index).trans (h.owns index),
    h.thread, ?_⟩
  have hplace := h.place
  cases p with
  | absent => trivial
  | idle => trivial
  | evaluating task =>
    have howns := (h.owns task.index).mpr rfl
    exact ⟨(hsame.verdict _ howns).trans hplace.1, (hsame.delivered _ howns).trans hplace.2⟩
  | sending task sender =>
    have howns := (h.owns task.index).mpr rfl
    refine hplace.undisturbed ?_ (hsame.delivered _ howns)
    rintro value ⟨obj, hverdict, rfl⟩
    exact ⟨obj, (hsame.verdict _ howns).trans hverdict, rfl⟩
  | reporting task =>
    have howns := (h.owns task.index).mpr rfl
    obtain ⟨accept, obj, hverdict, hdelivered⟩ := hplace
    exact ⟨accept, obj, (hsame.verdict _ howns).trans hverdict,
      (hsame.delivered _ howns).trans hdelivered⟩
  | enqueuing => exact (hsame.ended (h.thread.mp rfl)).trans hplace
  | joining => exact ⟨hsame.scope hplace.1, (hsame.ended (h.thread.mp rfl)).trans hplace.2⟩
  | closing sender =>
    refine ⟨hsame.allDone hplace.1, hplace.2.undisturbed (fun value hvalue => hvalue) ?_⟩
    exact hsame.ended (h.thread.mp rfl)
  | finished => exact ⟨hsame.allDone hplace.1, (hsame.ended (h.thread.mp rfl)).trans hplace.2⟩

/-! ## The queue -/

variable {total : ℕ}

/-- A step between two other stages neither adds a task to a stage nor removes one from it. -/
theorem update_stage_eq_iff {stage : ℕ → Stage} {target old new : Stage} {index : ℕ}
    (hstage : stage index = old) (hold : old ≠ target) (hnew : new ≠ target) (other : ℕ) :
    Function.update stage index new other = target ↔ stage other = target := by
  by_cases ho : other = index
  · subst ho
    rw [Function.update_self, hstage]
    exact ⟨fun h => absurd h hnew, fun h => absurd h hold⟩
  · rw [Function.update_of_ne ho]

/-- When the first task of a list leaves it for another stage, the objects at the old stage are
those of the tasks that stay. -/
theorem update_stage_head_iff {stage : ℕ → Stage} {target new : Stage} {task : Task α}
    {tasks : List (Task α)} (hfresh : task.index ∉ tasks.map Task.index) (hnew : new ≠ target)
    (h : ∀ index, stage index = target ↔ index ∈ (task :: tasks).map Task.index) (index : ℕ) :
    Function.update stage task.index new index = target ↔ index ∈ tasks.map Task.index := by
  by_cases hi : index = task.index
  · subst hi
    rw [Function.update_self]
    exact iff_of_false hnew hfresh
  · rw [Function.update_of_ne hi, h, List.map_cons, List.mem_cons, or_iff_right hi]

/-- A task moves from the scope to the queue and becomes one of the unfinished ones. -/
theorem QueueInv.put {task : Task α} {scope queue : List (Task α)} {unfinished : ℕ}
    {stage : ℕ → Stage} (h : QueueInv total (task :: scope) queue unfinished stage) :
    QueueInv total scope (queue ++ [task]) (unfinished + 1)
      (Function.update stage task.index .queued) := by
  have hstage : stage task.index = .inScope := (h.scopeStage _).mpr List.mem_cons_self
  obtain ⟨hfresh, hnodup⟩ := List.nodup_cons.mp h.scopeNodup
  refine ⟨?_, hnodup, ?_, ?_, ?_, ?_⟩
  · intro index
    rw [update_stage_eq_iff hstage (by simp) (by simp), h.known]
  · exact update_stage_head_iff hfresh (by simp) h.scopeStage
  · rw [List.map_append, List.map_singleton]
    refine h.queueNodup.append (List.nodup_singleton _) ?_
    rw [List.disjoint_singleton, ← h.queueStage, hstage]
    exact Stage.noConfusion
  · intro index
    rw [List.map_append, List.map_singleton, List.mem_append, List.mem_singleton]
    by_cases hi : index = task.index
    · subst hi
      simp
    · rw [Function.update_of_ne hi, h.queueStage, or_iff_left hi]
  · obtain ⟨opened, hopened, hlength, hmem⟩ := h.counted
    have hclosed : task.index ∉ opened := by
      rw [hmem, hstage]
      exact Bool.false_ne_true
    refine ⟨task.index :: opened, List.nodup_cons.mpr ⟨hclosed, hopened⟩, by simp [hlength], ?_⟩
    intro index
    by_cases hi : index = task.index
    · subst hi
      simp [Stage.isOpen]
    · rw [Function.update_of_ne hi, List.mem_cons, or_iff_right hi, hmem]

/-- A task leaves the queue into the hands of a worker; it stays unfinished until `task_done`. -/
theorem QueueInv.take {task : Task α} {scope queue : List (Task α)} {unfinished : ℕ}
    {stage : ℕ → Stage} (h : QueueInv total scope (task :: queue) unfinished stage) (pid : ℕ) :
    QueueInv total scope queue unfinished (Function.update stage task.index (.taken pid)) := by
  have hstage : stage task.index = .queued := (h.queueStage _).mpr List.mem_cons_self
  obtain ⟨hfresh, hnodup⟩ := List.nodup_cons.mp h.queueNodup
  refine ⟨?_, h.scopeNodup, ?_, hnodup, ?_, ?_⟩
  · intro index
    rw [update_stage_eq_iff hstage (by simp) (by simp), h.known]
  · intro index
    rw [update_stage_eq_iff hstage (by simp) (by simp), h.scopeStage]
  · exact update_stage_head_iff hfresh (by simp) h.queueStage
  · obtain ⟨opened, hopened, hlength, hmem⟩ := h.counted
    refine ⟨opened, hopened, hlength, fun index => ?_⟩
    by_cases hi : index = task.index
    · subst hi
      rw [Function.update_self, hmem, hstage]
      simp [Stage.isOpen]
    · rw [Function.update_of_ne hi, hmem]

/-- `task_done` counts down for a task that a worker held, and nobody else holds that task. -/
theorem QueueInv.taskDone {scope queue : List (Task α)} {unfinished : ℕ} {stage : ℕ → Stage}
    (h : QueueInv total scope queue unfinished stage) {index pid : ℕ} (hstage : stage index = .taken pid) :
    QueueInv total scope queue (unfinished - 1) (Function.update stage index .done) := by
  refine ⟨?_, h.scopeNodup, ?_, h.queueNodup, ?_, ?_⟩
  · intro other
    rw [update_stage_eq_iff hstage (by simp) (by simp), h.known]
  · intro other
    rw [update_stage_eq_iff hstage (by simp) (by simp), h.scopeStage]
  · intro other
    rw [update_stage_eq_iff hstage (by simp) (by simp), h.queueStage]
  · obtain ⟨opened, hopened, hlength, hmem⟩ := h.counted
    have hin : index ∈ opened := by
      rw [hmem, hstage]
      rfl
    refine ⟨opened.erase index, hopened.erase index, ?_, fun other => ?_⟩
    · rw [List.length_erase_of_mem hin, hlength]
    · rw [hopened.mem_erase_iff]
      by_cases hi : other = index
      · subst hi
        simp [Stage.isOpen]
      · rw [Function.update_of_ne hi, hmem]
        simp [hi]

/-- An object that is open is counted. -/
theorem QueueInv.unfinished_pos {scope queue : List (Task α)} {unfinished : ℕ}
    {stage : ℕ → Stage} (h : QueueInv total scope queue unfinished stage) {index : ℕ}
    (hopen : (stage index).isOpen = true) : unfinished ≠ 0 := by
  obtain ⟨opened, _, hlength, hmem⟩ := h.counted
  rw [← hlength]
  exact (List.length_pos_of_mem ((hmem index).mpr hopen)).ne'

/-- When the scope is exhausted and nothing is open, every object is done. -/
theorem QueueInv.allDone {queue : List (Task α)} {stage : ℕ → Stage}
    (h : QueueInv total [] queue 0 stage) : AllDone stage := by
  intro index
  cases hstage : stage index with
  | unknown => exact Or.inl rfl
  | done => exact Or.inr rfl
  | inScope =>
    have hmem := (h.scopeStage index).mp hstage
    simp at hmem
  | queued =>
    have hopen : (stage index).isOpen = true := by rw [hstage, Stage.isOpen]
    exact absurd rfl (h.unfinished_pos hopen)
  | taken pid =>
    have hopen : (stage index).isOpen = true := by rw [hstage, Stage.isOpen]
    exact absurd rfl (h.unfinished_pos hopen)

/-! ## Verdicts and deliveries -/

/-- A further exchange adds one delivery of its own payload, and none of another one. -/
theorem deliveries_append (exchanges : List Exchange) (exchange : Exchange) (payload : Payload) :
    deliveries (exchanges ++ [exchange]) payload =
      deliveries exchanges payload + if exchange.delivered = some payload then 1 else 0 := by
  simp [deliveries, List.countP_append, List.countP_singleton]

/-- An exchange that does not carry a payload leaves its deliveries as they are. -/
theorem deliveries_append_of_ne {exchanges : List Exchange} {exchange : Exchange}
    {payload : Payload} (h : exchange.delivered ≠ some payload) :
    deliveries (exchanges ++ [exchange]) payload = deliveries exchanges payload := by
  rw [deliveries_append, if_neg h, Nat.add_zero]

/-- A payload that some exchange carried has been delivered. -/
theorem deliveries_ne_zero {exchanges : List Exchange} {exchange : Exchange} {payload : Payload}
    (hmem : exchange ∈ exchanges) (h : exchange.delivered = some payload) :
    deliveries exchanges payload ≠ 0 := by
  rw [deliveries, Nat.ne_zero_iff_zero_lt, List.countP_pos_iff]
  exact ⟨exchange, hmem, by simpa using h⟩

/-- While some task that has been found is not done, `join` cannot return. -/
theorem not_allDone {stage : ℕ → Stage} {index : ℕ} (hunknown : stage index ≠ .unknown)
    (hdone : stage index ≠ .done) : ¬ AllDone stage :=
  fun h => (h index).elim hunknown hdone

/-- A task in the hands of a worker is such a task. -/
theorem not_allDone_of_taken {stage : ℕ → Stage} {index pid : ℕ}
    (h : stage index = .taken pid) : ¬ AllDone stage :=
  not_allDone (by rw [h]; exact Stage.noConfusion) (by rw [h]; exact Stage.noConfusion)

/-- Moving an object that is not done to a stage before the end keeps the ledger: verdicts and
deliveries are about objects in hand or done. -/
theorem LedgerInv.move {stage : ℕ → Stage} {verdict : ℕ → Option (Bool × α)}
    {exchanges : List Exchange} (h : LedgerInv stage verdict exchanges) {index : ℕ} {new : Stage}
    (hunknown : stage index ≠ .unknown) (hdone : stage index ≠ .done)
    (htaken : ∀ pid, stage index ≠ .taken pid) (hnew : new ≠ .done) :
    LedgerInv (Function.update stage index new) verdict exchanges := by
  refine ⟨?_, ?_, fun hended => absurd (h.ended hended) (not_allDone hunknown hdone), h.last⟩
  · intro other hother hfree
    by_cases ho : other = index
    · subst ho
      exact h.fresh other hdone htaken
    · simp only [Function.update_of_ne ho] at hother hfree
      exact h.fresh other hother hfree
  · intro other hother
    by_cases ho : other = index
    · subst ho
      rw [Function.update_self] at hother
      exact absurd hother hnew
    · rw [Function.update_of_ne ho] at hother
      exact h.settled other hother

/-- The verdict on a task that a worker holds is written down before anything of it is sent. -/
theorem LedgerInv.judge {stage : ℕ → Stage} {verdict : ℕ → Option (Bool × α)}
    {exchanges : List Exchange} (h : LedgerInv stage verdict exchanges) {index pid : ℕ}
    (hstage : stage index = .taken pid) (result : Bool × α) :
    LedgerInv stage (Function.update verdict index (some result)) exchanges := by
  refine ⟨?_, ?_, h.ended, h.last⟩
  · intro other hother hfree
    have ho : other ≠ index := by
      rintro rfl
      exact hfree pid hstage
    rw [Function.update_of_ne ho]
    exact h.fresh other hother hfree
  · intro other hother
    have ho : other ≠ index := by
      rintro rfl
      rw [hstage] at hother
      cases hother
    unfold Settled
    rw [Function.update_of_ne ho]
    exact h.settled other hother

/-- A task is done only when its verdict is settled, that is delivered if it was an acceptance. -/
theorem LedgerInv.taskDone {stage : ℕ → Stage} {verdict : ℕ → Option (Bool × α)}
    {exchanges : List Exchange} (h : LedgerInv stage verdict exchanges) {index pid : ℕ}
    (hstage : stage index = .taken pid) (hsettled : Settled verdict exchanges index) :
    LedgerInv (Function.update stage index .done) verdict exchanges := by
  refine ⟨?_, ?_, fun hended => absurd (h.ended hended) (not_allDone_of_taken hstage), h.last⟩
  · intro other hother hfree
    have ho : other ≠ index := by
      rintro rfl
      exact hother (Function.update_self _ _ _)
    simp only [Function.update_of_ne ho] at hother hfree
    exact h.fresh other hother hfree
  · intro other hother
    by_cases ho : other = index
    · subst ho
      exact hsettled
    · rw [Function.update_of_ne ho] at hother
      exact h.settled other hother

/-- A reply that delivers at most an object that a worker is at, or the first end marker
after everything else is done. -/
theorem LedgerInv.exchange {stage : ℕ → Stage} {verdict : ℕ → Option (Bool × α)}
    {exchanges : List Exchange} (h : LedgerInv stage verdict exchanges) {exchange : Exchange}
    (hobject : ∀ index, exchange.delivered = some (.object index) →
      ∃ pid, stage index = .taken pid)
    (hended : exchange.delivered = some .ended →
      AllDone stage ∧ deliveries exchanges .ended = 0) :
    LedgerInv stage verdict (exchanges ++ [exchange]) := by
  have hsame : ∀ index, (∀ pid, stage index ≠ .taken pid) →
      deliveries (exchanges ++ [exchange]) (.object index) =
        deliveries exchanges (.object index) := by
    intro index hfree
    refine deliveries_append_of_ne ?_
    intro hdelivered
    obtain ⟨pid, hstage⟩ := hobject index hdelivered
    exact hfree pid hstage
  refine ⟨?_, ?_, ?_, ?_⟩
  · intro index hother hfree
    rw [hsame index hfree]
    exact h.fresh index hother hfree
  · intro index hdone
    unfold Settled
    rw [hsame index (by simp [hdone])]
    exact h.settled index hdone
  · intro hdelivered
    by_cases hnow : exchange.delivered = some .ended
    · exact (hended hnow).1
    · rw [deliveries_append_of_ne hnow] at hdelivered
      exact h.ended hdelivered
  · rw [List.pairwise_append]
    refine ⟨h.last, List.pairwise_singleton _ _, ?_⟩
    intro earlier hearlier later hlater hdelivered
    rw [List.mem_singleton.mp hlater]
    have hbefore := deliveries_ne_zero hearlier hdelivered
    cases hnow : exchange.delivered with
    | none => rfl
    | some payload =>
      cases payload with
      | object index =>
        obtain ⟨pid, hstage⟩ := hobject index hnow
        exact absurd (h.ended hbefore) (not_allDone_of_taken hstage)
      | ended => exact absurd (hended hnow).2 hbefore

/-! ## The stream -/

/-- A further verdict does not change what a payload carries, since the task had none before. -/
theorem Carries.judge {xdr : α → Value} {verdict : ℕ → Option (Bool × α)} {index : ℕ}
    (hnone : verdict index = none) (result : Bool × α) {payload : Payload} {value : Value}
    (h : Carries xdr verdict payload value) :
    Carries xdr (Function.update verdict index (some result)) payload value := by
  cases payload with
  | ended => exact h
  | object other =>
    obtain ⟨obj, hverdict, hvalue⟩ := h
    have ho : other ≠ index := by
      rintro rfl
      rw [hnone] at hverdict
      cases hverdict
    exact ⟨obj, by rw [Function.update_of_ne ho, hverdict], hvalue⟩

/-- A new verdict does not change what was delivered before. -/
theorem StreamInv.judge {xdr : α → Value} {verdict : ℕ → Option (Bool × α)}
    {arrived : List Frame} {exchanges : List Exchange} {sock : Socket}
    (h : StreamInv xdr verdict arrived exchanges sock) {index : ℕ} (hnone : verdict index = none)
    (result : Bool × α) :
    StreamInv xdr (Function.update verdict index (some result)) arrived exchanges sock := by
  refine ⟨h.inRange, h.incoming, h.outgoing, ?_⟩
  intro exchange hmem
  obtain ⟨value, hanswered, hcarries⟩ := h.valid exchange hmem
  exact ⟨value, hanswered, fun payload hpayload =>
    (hcarries payload hpayload).judge hnone result⟩

/-- A frame that arrives lengthens the stream of requests, and the socket's bytes by its own wire
form. -/
theorem StreamInv.arrive {xdr : α → Value} {verdict : ℕ → Option (Bool × α)}
    {arrived : List Frame} {exchanges : List Exchange} {sock : Socket}
    (h : StreamInv xdr verdict arrived exchanges sock) {frame : Frame} (hrange : frame.InRange) :
    StreamInv xdr verdict (arrived ++ [frame]) exchanges
      { sock with incoming := sock.incoming ++ frame.wire } := by
  refine ⟨?_, ?_, h.outgoing, h.valid⟩
  · intro other hother
    rcases List.mem_append.mp hother with hbefore | hnew
    · exact h.inRange other hbefore
    · rw [List.mem_singleton.mp hnew]
      exact hrange
  · obtain ⟨consumed, inbox, rfl, hincoming, hconsumed⟩ := h.incoming
    refine ⟨consumed, inbox ++ [frame], List.append_assoc _ _ _, ?_, hconsumed⟩
    simp [hincoming]

/-- A call of `dispatch` that succeeds takes the next request off the stream, and records it
with its reply. -/
theorem StreamInv.exchange {xdr : α → Value} {verdict : ℕ → Option (Bool × α)}
    {arrived : List Frame} {exchanges : List Exchange} {sock : Socket}
    (h : StreamInv xdr verdict arrived exchanges sock) {sender : Sender} {server : Server Bool}
    (hsent : sender.sent = false) (hcarries : Carries xdr verdict sender.payload sender.obj)
    (hdispatch : dispatch (senderHandlers sender.obj) ⟨sock, sender.sent⟩ = (.ok (), server)) :
    ∃ exchange, exchangeOf sender sock = some exchange ∧
      exchange.delivered = (if server.state then some sender.payload else none) ∧
      StreamInv xdr verdict arrived (exchanges ++ [exchange]) server.sock := by
  obtain ⟨consumed, inbox, rfl, hincoming, hconsumed⟩ := h.incoming
  have hrange : ∀ frame ∈ inbox, frame.InRange := fun frame hframe =>
    h.inRange frame (List.mem_append_right _ hframe)
  obtain ⟨skipped, request, later, status, body, rfl, hskipped, hfirst, hreceive, hrespond,
    hin, hout⟩ := dispatch_eq_ok hrange hincoming hdispatch
  have hanswered := answered_of_respond hrespond
  refine ⟨⟨request, request.reply status body, if server.state then some sender.payload else none⟩,
    ?_, rfl, h.inRange, ?_, ?_, ?_⟩
  · simp only [exchangeOf, hreceive, hrespond]
    rfl
  · refine ⟨consumed ++ skipped ++ [request], later, by simp, hin, ?_⟩
    have hnone : skipped.filter Frame.isRequest = [] := by
      rw [List.filter_eq_nil_iff]
      intro frame hframe
      rw [hskipped frame hframe]
      exact Bool.false_ne_true
    simp [List.filter_append, hconsumed, hnone, hfirst]
  · rw [hout, h.outgoing, List.map_append, wire_append]
    simp
  · intro exchange hmem
    rcases List.mem_append.mp hmem with hbefore | hnew
    · exact h.valid exchange hbefore
    · rw [List.mem_singleton.mp hnew]
      refine ⟨sender.obj, ?_, ?_⟩
      · rw [hsent] at hanswered
        cases hstate : server.state <;> simpa [hstate] using hanswered
      · intro payload hpayload
        cases hstate : server.state with
        | false => simp [hstate] at hpayload
        | true =>
          simp only [hstate, if_true, Option.some.injEq] at hpayload
          exact hpayload ▸ hcarries

/-! ## Steps of a sender -/

/-- The process may send the payload: it is the worker at the object, or the thread after
everything is done. -/
def MaySend (s : Shared α) (pid : ℕ) : Payload → Prop
  | .object index => s.record.stage index = .taken pid
  | .ended => pid = 0 ∧ AllDone s.record.stage

/-- What holds of a sender after a step: it goes on, or its loop has ended with the payload
delivered. -/
def SenderRest (xdr : α → Value) (s : Shared α) (pid : ℕ) (payload : Payload) :
    Option Sender → Prop
  | some sender => SenderOk xdr s payload sender ∧ (sender.phase ≠ .outside ↔ s.lock = some pid)
  | none => deliveries s.record.exchanges payload = 1 ∧ s.lock ≠ some pid

/-- What a step of a sender leads to. -/
structure SenderNext (xdr : α → Value) (total : ℕ) (s s' : Shared α) (pid : ℕ)
    (payload : Payload) (next : Option Sender) : Prop where
  inv : SharedInv xdr total s'
  stage : s'.record.stage = s.record.stage
  verdict : s'.record.verdict = s.record.verdict
  others : ∀ other, other ≠ pid → Undisturbed s s' other
  rest : SenderRest xdr s' pid payload next

/-- Taking or giving back the lock disturbs nobody else. -/
theorem undisturbed_lock {s : Shared α} {lock : Option ℕ} {other : ℕ}
    (h : lock = some other ↔ s.lock = some other) :
    Undisturbed s { s with lock := lock } other :=
  ⟨h, fun _ => Iff.rfl, fun _ _ => rfl, fun _ _ => rfl, fun _ => rfl, id, id⟩

/-- A reply that delivers at most the payload of a process disturbs nobody else. -/
theorem undisturbed_exchange {s : Shared α} {sender : Sender} {sock : Socket}
    {exchange : Exchange} {pid other : ℕ} (hother : other ≠ pid)
    (hexchange : exchangeOf sender s.sock = some exchange) (hmay : MaySend s pid sender.payload)
    (hdelivered : exchange.delivered = none ∨ exchange.delivered = some sender.payload) :
    Undisturbed s (s.exchange sender sock) other := by
  have happend : (s.exchange sender sock).record.exchanges = s.record.exchanges ++ [exchange] := by
    simp [Shared.exchange, hexchange]
  have hkept : ∀ payload, payload ≠ sender.payload →
      deliveries (s.exchange sender sock).record.exchanges payload =
        deliveries s.record.exchanges payload := by
    intro payload hne
    rw [happend]
    refine deliveries_append_of_ne ?_
    rcases hdelivered with hnone | hpayload
    · simp [hnone]
    · rw [hpayload]
      exact fun heq => hne (Option.some.inj heq).symm
  refine ⟨Iff.rfl, fun _ => Iff.rfl, fun _ _ => rfl, ?_, ?_, id, id⟩
  · intro index hstage
    apply hkept
    intro heq
    rw [← heq] at hmay
    have hsame : Stage.taken pid = Stage.taken other := hmay.symm.trans hstage
    exact hother (Stage.taken.inj hsame).symm
  · intro hzero
    apply hkept
    intro heq
    rw [← heq] at hmay
    exact hother (hzero.trans hmay.1.symm)

/-- A call of `dispatch` keeps the invariant and sets the flag exactly when it delivers. -/
theorem dispatch_senderNext {xdr : α → Value} {s : Shared α} {pid : ℕ} {payload : Payload}
    {sender : Sender} {server : Server Bool} (hinv : SharedInv xdr total s)
    (hok : SenderOk xdr s payload sender) (hmay : MaySend s pid payload)
    (hphase : sender.phase = .inside) (hlock : s.lock = some pid)
    (hdispatch : dispatch (senderHandlers sender.obj) ⟨s.sock, sender.sent⟩ = (.ok (), server)) :
    SenderNext xdr total s (s.exchange sender server.sock) pid payload
      (some { sender with sent := server.state, phase := .answered }) := by
  have hsent := hok.inside hphase
  obtain rfl := hok.sends
  obtain ⟨exchange, hexchange, hdelivered, hstream⟩ :=
    hinv.stream.exchange hsent hok.carries hdispatch
  have happend : (s.exchange sender server.sock).record.exchanges =
      s.record.exchanges ++ [exchange] := by
    simp [Shared.exchange, hexchange]
  have hcase : exchange.delivered = none ∨ exchange.delivered = some sender.payload := by
    rw [hdelivered]
    cases server.state <;> simp
  have hnone : deliveries s.record.exchanges sender.payload = 0 := by
    have hcount := hok.sent
    rwa [hsent] at hcount
  refine ⟨⟨hinv.queue, ?_, ?_⟩, rfl, rfl, fun other ho =>
    undisturbed_exchange ho hexchange hmay hcase, ⟨⟨rfl, hok.carries, ?_, ?_⟩, ?_⟩⟩
  · rw [happend]
    refine hinv.ledger.exchange ?_ ?_
    · intro index hindex
      rcases hcase with h | h
      · rw [h] at hindex
        cases hindex
      · rw [h, Option.some.injEq] at hindex
        rw [hindex] at hmay
        exact ⟨pid, hmay⟩
    · intro hended
      rcases hcase with h | h
      · rw [h] at hended
        cases hended
      · rw [h, Option.some.injEq] at hended
        rw [hended] at hmay hnone
        exact ⟨hmay.2, hnone⟩
  · rw [happend]
    exact hstream
  · rw [happend, deliveries_append, hnone, hdelivered]
    cases server.state <;> simp
  · simp
  · exact iff_of_true (by simp) hlock

/-- Every step of a sender keeps the invariant, the flag and the lock in order. -/
theorem senderStep_next {xdr : α → Value} {s s' : Shared α} {pid : ℕ} {payload : Payload}
    {sender : Sender} {next : Option Sender} (hinv : SharedInv xdr total s)
    (hok : SenderOk xdr s payload sender) (hmay : MaySend s pid payload)
    (hlock : sender.phase ≠ .outside ↔ s.lock = some pid)
    (h : senderStep s pid sender = some (s', next)) :
    SenderNext xdr total s s' pid payload next := by
  unfold senderStep at h
  split at h
  · rename_i hphase
    have hfree : s.lock ≠ some pid := fun hheld => hlock.mpr hheld hphase
    split at h
    · rename_i hsent
      cases h
      have hcount := hok.sent
      rw [hsent] at hcount
      exact ⟨hinv, rfl, rfl, fun other _ => undisturbed_lock Iff.rfl, hcount, hfree⟩
    · rename_i hsent
      split at h
      · rename_i hnone
        cases h
        refine ⟨⟨hinv.queue, hinv.ledger, hinv.stream⟩, rfl, rfl, ?_,
          ⟨hok.sends, hok.carries, hok.sent, ?_⟩, iff_of_true (by simp) rfl⟩
        · intro other ho
          refine undisturbed_lock (iff_of_false ?_ ?_)
          · simpa using Ne.symm ho
          · simp [hnone]
        · intro _
          simpa using hsent
      · cases h
  · rename_i hphase
    have hheld : s.lock = some pid := hlock.mp (by simp [hphase])
    split at h
    · rename_i server hdispatch
      cases h
      exact dispatch_senderNext hinv hok hmay hphase hheld hdispatch
    · cases h
  · rename_i hphase
    have hheld : s.lock = some pid := hlock.mp (by simp [hphase])
    cases h
    refine ⟨⟨hinv.queue, hinv.ledger, hinv.stream⟩, rfl, rfl, ?_,
      ⟨hok.sends, hok.carries, hok.sent, by simp⟩, iff_of_false (by simp) (by simp)⟩
    intro other ho
    refine undisturbed_lock (iff_of_false (by simp) ?_)
    rw [hheld]
    simpa using Ne.symm ho

/-! ## Steps of the processes -/

/-- A step that keeps the invariant, leads its process to a sound point and disturbs nobody
else. -/
structure Kept (xdr : α → Value) (total : ℕ) (s s' : Shared α) (pid : ℕ) (p' : Proc α) :
    Prop where
  inv : SharedInv xdr total s'
  own : ProcOk xdr s' pid p'
  others : ∀ other, other ≠ pid → Undisturbed s s' other

/-- A worker without a task takes the first one of the queue. The task had no verdict and no
delivery, and from now on nobody else can give it one. -/
theorem take_kept {xdr : α → Value} {s : Shared α} {pid : ℕ} {task : Task α}
    {rest : List (Task α)} (hinv : SharedInv xdr total s) (hok : ProcOk xdr s pid .idle)
    (hqueue : s.queue = task :: rest) : Kept xdr total s (s.take pid task rest) pid (.evaluating task) := by
  have hqueueInv : QueueInv total s.scope (task :: rest) s.unfinished s.record.stage := hqueue ▸ hinv.queue
  have hstage : s.record.stage task.index = .queued :=
    (hqueueInv.queueStage _).mpr List.mem_cons_self
  have hfree : ∀ other, s.record.stage task.index ≠ .taken other := by simp [hstage]
  have hdone : s.record.stage task.index ≠ .done := by simp [hstage]
  have hknown : s.record.stage task.index ≠ .unknown := by simp [hstage]
  refine ⟨⟨hqueueInv.take pid, hinv.ledger.move hknown hdone hfree (by simp), hinv.stream⟩,
    ⟨hok.lock, ?_, hok.thread, hinv.ledger.fresh _ hdone hfree⟩, fun other ho => ?_⟩
  · intro index
    show Function.update s.record.stage task.index (.taken pid) index = .taken pid ↔
      some task.index = some index
    by_cases hi : index = task.index
    · subst hi
      exact iff_of_true (Function.update_self _ _ _) rfl
    · rw [Function.update_of_ne hi]
      refine iff_of_false ?_ (by simpa using Ne.symm hi)
      intro htaken
      cases (hok.owns index).mp htaken
  · refine ⟨Iff.rfl, ?_, fun _ _ => rfl, fun _ _ => rfl, fun _ => rfl, id, ?_⟩
    · exact update_stage_eq_iff hstage (by simp) (by simpa using Ne.symm ho)
    · exact fun hall => absurd hall (not_allDone hknown hdone)

/-- A worker writes its verdict down, and goes on to send the object or to report the drop. No one
else had judged the object, as the task was in the hands of this worker. -/
theorem judge_kept {xdr : α → Value} {s : Shared α} {pid : ℕ} {task : Task α}
    (hinv : SharedInv xdr total s) (hok : ProcOk xdr s pid (.evaluating task)) (accept : Bool) (obj : α) :
    Kept xdr total s (s.judge task.index accept obj) pid
      (if accept then .sending task (.new (.object task.index) (xdr obj)) else .reporting task) := by
  have hstage := (hok.owns task.index).mpr rfl
  obtain ⟨hnone, hzero⟩ := hok.place
  have hverdict : (s.judge task.index accept obj).record.verdict task.index = some (accept, obj) :=
    Function.update_self _ _ _
  refine ⟨⟨hinv.queue, hinv.ledger.judge hstage _, hinv.stream.judge hnone _⟩, ?_, ?_⟩
  · cases accept with
    | true =>
      refine ⟨hok.lock, hok.owns, hok.thread, rfl, ⟨obj, hverdict, rfl⟩, hzero, ?_⟩
      intro hphase
      cases hphase
    | false => exact ⟨hok.lock, hok.owns, hok.thread, false, obj, hverdict, hzero⟩
  · intro other ho
    refine ⟨Iff.rfl, fun _ => Iff.rfl, ?_, fun _ _ => rfl, fun _ => rfl, id, id⟩
    intro index htaken
    refine Function.update_of_ne ?_ _ _
    rintro rfl
    exact ho (Stage.taken.inj (htaken.symm.trans hstage))

/-- A worker reports its task as done and is free again; by then a verdict that accepts has been
delivered. -/
theorem taskDone_kept {xdr : α → Value} {s : Shared α} {pid : ℕ} {task : Task α}
    (hinv : SharedInv xdr total s) (hok : ProcOk xdr s pid (.reporting task)) :
    Kept xdr total s (s.taskDone task.index) pid .idle := by
  have hstage := (hok.owns task.index).mpr rfl
  refine ⟨⟨hinv.queue.taskDone hstage, hinv.ledger.taskDone hstage hok.place, hinv.stream⟩,
    ⟨hok.lock, ?_, hok.thread, trivial⟩, fun other ho => ?_⟩
  · intro index
    show Function.update s.record.stage task.index .done index = .taken pid ↔ none = some index
    refine iff_of_false ?_ (by simp)
    by_cases hi : index = task.index
    · subst hi
      rw [Function.update_self]
      exact Stage.noConfusion
    · rw [Function.update_of_ne hi]
      intro htaken
      exact hi (Option.some.inj ((hok.owns index).mp htaken)).symm
  · refine ⟨Iff.rfl, ?_, fun _ _ => rfl, fun _ _ => rfl, fun _ => rfl, id, ?_⟩
    · exact update_stage_eq_iff hstage (by simpa using Ne.symm ho) (by simp)
    · exact fun hall => absurd hall (not_allDone_of_taken hstage)

/-- The main thread puts the next task of the scope into the queue, where it can be taken once. -/
theorem put_kept {xdr : α → Value} {s : Shared α} {pid : ℕ} {task : Task α}
    {rest : List (Task α)} (hinv : SharedInv xdr total s) (hok : ProcOk xdr s pid .enqueuing)
    (hscope : s.scope = task :: rest) : Kept xdr total s (s.put task rest) pid .enqueuing := by
  have hqueueInv : QueueInv total (task :: rest) s.queue s.unfinished s.record.stage := hscope ▸ hinv.queue
  have hstage : s.record.stage task.index = .inScope :=
    (hqueueInv.scopeStage _).mpr List.mem_cons_self
  have hfree : ∀ other, s.record.stage task.index ≠ .taken other := by simp [hstage]
  have hdone : s.record.stage task.index ≠ .done := by simp [hstage]
  have hknown : s.record.stage task.index ≠ .unknown := by simp [hstage]
  have htaken : ∀ other index, (s.put task rest).record.stage index = .taken other ↔
      s.record.stage index = .taken other := fun other index =>
    update_stage_eq_iff hstage (by simp) (by simp) index
  refine ⟨⟨hqueueInv.put, hinv.ledger.move hknown hdone hfree (by simp), hinv.stream⟩,
    ⟨hok.lock, fun index => (htaken pid index).trans (hok.owns index), hok.thread, hok.place⟩,
    fun other _ => ⟨Iff.rfl, htaken other, fun _ _ => rfl, fun _ _ => rfl, fun _ => rfl, ?_, ?_⟩⟩
  · intro hnil
    rw [hscope] at hnil
    cases hnil
  · exact fun hall => absurd hall (not_allDone hknown hdone)

/-- A step that changes nothing disturbs nobody. -/
theorem undisturbed_refl (s : Shared α) (pid : ℕ) : Undisturbed s s pid :=
  ⟨Iff.rfl, fun _ => Iff.rfl, fun _ _ => rfl, fun _ _ => rfl, fun _ => rfl, id, id⟩

/-- The thread starts to close the channel only when every object is done, so that the end marker
comes behind all of them. -/
theorem join_kept {xdr : α → Value} {s : Shared α} {pid : ℕ} (hinv : SharedInv xdr total s)
    (hok : ProcOk xdr s pid .joining) (hzero : s.unfinished = 0) :
    Kept xdr total s s pid (.closing (.new .ended emptyXdr)) := by
  obtain ⟨hscope, hnone⟩ := hok.place
  have hqueueInv : QueueInv total [] s.queue 0 s.record.stage := hscope ▸ hzero ▸ hinv.queue
  refine ⟨hinv, ⟨hok.lock, hok.owns, hok.thread, hqueueInv.allDone, rfl, rfl, hnone, ?_⟩,
    fun other _ => undisturbed_refl s other⟩
  intro hphase
  cases hphase

/-- A step inside `send` keeps everything while a worker sends the object of its task: the exchange
with the client is noted as a whole, and carries the object at most once. -/
theorem sending_kept {xdr : α → Value} {s s' : Shared α} {pid : ℕ} {task : Task α}
    {sender : Sender} {next : Option Sender} (hinv : SharedInv xdr total s)
    (hok : ProcOk xdr s pid (.sending task sender))
    (h : senderStep s pid sender = some (s', next)) :
    Kept xdr total s s' pid (.afterSend task next) := by
  have hlock : sender.phase ≠ .outside ↔ s.lock = some pid := by
    simpa [Proc.holds] using hok.lock
  have hstage := (hok.owns task.index).mpr rfl
  have hnext := senderStep_next hinv hok.place hstage hlock h
  have howns : ∀ index, s'.record.stage index = .taken pid ↔ some task.index = some index := by
    rw [hnext.stage]
    exact hok.owns
  have hrest := hnext.rest
  cases next with
  | some sender' =>
    refine ⟨hnext.inv, ⟨?_, howns, hok.thread, hrest.1⟩, hnext.others⟩
    simpa [Proc.holds, Proc.afterSend, Proc.afterClose] using hrest.2
  | none =>
    obtain ⟨obj, hverdict, _⟩ := hok.place.carries
    refine ⟨hnext.inv, ⟨iff_of_false Bool.false_ne_true hrest.2, howns, hok.thread,
      true, obj, ?_, hrest.1⟩, hnext.others⟩
    rw [hnext.verdict]
    exact hverdict

/-- The same step keeps everything while the main thread sends the end marker. All objects are
settled by then. -/
theorem closing_kept {xdr : α → Value} {s s' : Shared α} {pid : ℕ} {sender : Sender}
    {next : Option Sender} (hinv : SharedInv xdr total s) (hok : ProcOk xdr s pid (.closing sender))
    (h : senderStep s pid sender = some (s', next)) :
    Kept xdr total s s' pid (.afterClose next) := by
  have hlock : sender.phase ≠ .outside ↔ s.lock = some pid := by
    simpa [Proc.holds] using hok.lock
  obtain ⟨hdone, hsender⟩ := hok.place
  have hnext := senderStep_next hinv hsender ⟨hok.thread.mp rfl, hdone⟩ hlock h
  have howns : ∀ index, s'.record.stage index = .taken pid ↔ none = some index := by
    rw [hnext.stage]
    exact hok.owns
  have hdone' : AllDone s'.record.stage := by rwa [hnext.stage]
  have hrest := hnext.rest
  cases next with
  | some sender' =>
    refine ⟨hnext.inv, ⟨?_, howns, hok.thread, hdone', hrest.1⟩, hnext.others⟩
    simpa [Proc.holds, Proc.afterSend, Proc.afterClose] using hrest.2
  | none =>
    exact ⟨hnext.inv, ⟨iff_of_false Bool.false_ne_true hrest.2, howns, hok.thread, hdone',
      hrest.1⟩, hnext.others⟩

/-- Every step of a process is sound: it keeps the invariant of what is shared, what holds of the
process itself, and what holds of every other one. -/
theorem call_kept {xdr : α → Value} {s s' : Shared α} {pid : ℕ} {p p' : Proc α}
    {choice : Choice α} (hinv : SharedInv xdr total s) (hok : ProcOk xdr s pid p)
    (h : call xdr s pid p choice = some (s', p')) : Kept xdr total s s' pid p' := by
  unfold call at h
  split at h
  · split at h
    · rename_i hqueue
      cases h
      exact take_kept hinv hok hqueue
    · cases h
  · cases h
    exact judge_kept hinv hok _ _
  · obtain ⟨⟨t, next⟩, hstep, hpair⟩ := Option.map_eq_some_iff.mp h
    cases hpair
    exact sending_kept hinv hok hstep
  · split at h
    · cases h
    · cases h
      exact taskDone_kept hinv hok
  · split at h
    · rename_i hscope
      split at h
      · cases h
        exact put_kept hinv hok hscope
      · cases h
    · rename_i hscope
      cases h
      exact ⟨hinv, ⟨hok.lock, hok.owns, hok.thread, hscope, hok.place⟩,
        fun other _ => undisturbed_refl s other⟩
  · split at h
    · rename_i hzero
      cases h
      exact join_kept hinv hok hzero
    · cases h
  · obtain ⟨⟨t, next⟩, hstep, hpair⟩ := Option.map_eq_some_iff.mp h
    cases hpair
    exact closing_kept hinv hok hstep
  · cases h

/-- A message of the client disturbs no process, as it only waits behind the others. -/
theorem arrive_holds {xdr : α → Value} {s s' : Shared α}
    {frame : { frame : Frame // frame.InRange }} (hinv : SharedInv xdr total s)
    (h : arrive s frame = some s') :
    SharedInv xdr total s' ∧ ∀ pid p, ProcOk xdr s pid p → ProcOk xdr s' pid p := by
  cases h
  refine ⟨⟨hinv.queue, hinv.ledger, hinv.stream.arrive frame.property⟩, ?_⟩
  intro pid p hok
  exact hok.undisturbed ⟨Iff.rfl, fun _ => Iff.rfl, fun _ _ => rfl, fun _ _ => rfl,
    fun _ => rfl, id, id⟩

/-- The invariant holds in every state of every run, by induction over its steps. -/
theorem run_holds {xdr : α → Value} {s t : System (Shared α) (Proc α)}
    {labels : List (Label (Choice α) { frame : Frame // frame.InRange })}
    (hs : Holds (SharedInv xdr total) (ProcOk xdr) s)
    (hr : exec (searchStep xdr) s labels = some t) : Holds (SharedInv xdr total) (ProcOk xdr) t := by
  refine exec_holds_of_steps ?_ (fun _ _ _ hinv h => arrive_holds hinv h) hs hr
  intro s pid p choice s' p' hinv hok h
  have hkept := call_kept hinv hok h
  exact ⟨hkept.inv, hkept.own, fun other q ho hq => hq.undisturbed (hkept.others other ho)⟩

/-! ## Whole searches -/

/-- The tasks are numbered in the order of the scope. -/
theorem tasks_index (objs : List α) : (tasks objs).map Task.index = List.range objs.length := by
  rw [tasks, List.map_map, List.range_eq_range', ← List.zipIdx_map_snd]
  rfl

/-- The stage of every object before the search. -/
theorem initial_stage {count : ℕ} {objs : List α} {schedule : ℕ → ℕ} (index : ℕ) :
    (initial count objs schedule).shared.record.stage index =
      if index < objs.length then .inScope else .unknown := rfl

/-- At the start the main thread is to fill the queue, the workers are free, and nothing was
sent. -/
theorem initial_procOk (xdr : α → Value) (count : ℕ) (objs : List α) (schedule : ℕ → ℕ)
    (pid : ℕ) :
    ProcOk xdr (initial count objs schedule).shared pid ((initial count objs schedule).procs pid) := by
  have hfree : ∀ index, (initial count objs schedule).shared.record.stage index ≠ .taken pid := by
    intro index
    rw [initial_stage]
    split <;> exact Stage.noConfusion
  have hlock : (initial count objs schedule).shared.lock ≠ some pid := by simp [initial]
  have howns : ∀ index, (initial count objs schedule).shared.record.stage index = .taken pid ↔
      none = some index := fun index => iff_of_false (hfree index) (by simp)
  by_cases hzero : pid = 0
  · have hproc : (initial count objs schedule).procs pid = .enqueuing := if_pos hzero
    rw [hproc]
    exact ⟨iff_of_false Bool.false_ne_true hlock, howns, iff_of_true rfl hzero, rfl⟩
  · have hthread : false = true ↔ pid = 0 := iff_of_false Bool.false_ne_true hzero
    by_cases hcount : pid ≤ count
    · have hproc : (initial count objs schedule).procs pid = .idle := by
        simp [initial, hzero, hcount]
      rw [hproc]
      exact ⟨iff_of_false Bool.false_ne_true hlock, howns, hthread, trivial⟩
    · have hproc : (initial count objs schedule).procs pid = .absent := by
        simp [initial, hzero, hcount]
      rw [hproc]
      exact ⟨iff_of_false Bool.false_ne_true hlock, howns, hthread, trivial⟩

/-- The invariant holds when the threads have been started: the scope is whole, the queue is empty,
and nothing was sent. -/
theorem initial_holds (xdr : α → Value) (count : ℕ) (objs : List α) (schedule : ℕ → ℕ) :
    Holds (SharedInv xdr objs.length) (ProcOk xdr) (initial count objs schedule) := by
  refine ⟨⟨⟨?_, ?_, ?_, List.nodup_nil, ?_, [], List.nodup_nil, rfl, ?_⟩,
    ⟨fun _ _ _ => ⟨rfl, rfl⟩, ?_, fun h => absurd rfl h, List.Pairwise.nil⟩,
    ⟨by simp [initial], ⟨[], [], rfl, rfl, rfl⟩, rfl, by simp [initial]⟩⟩,
    initial_procOk xdr count objs schedule⟩
  · intro index
    rw [initial_stage]
    split <;> simp_all
  · show ((tasks objs).map Task.index).Nodup
    rw [tasks_index]
    exact List.nodup_range
  · intro index
    show _ ↔ index ∈ (tasks objs).map Task.index
    rw [initial_stage, tasks_index, List.mem_range]
    split <;> simp_all
  · intro index
    rw [initial_stage]
    split <;> simp [initial]
  · intro index
    rw [initial_stage]
    split <;> simp [Stage.isOpen]
  · intro index hdone
    rw [initial_stage] at hdone
    split at hdone <;> cases hdone

/-- A sender offers only `get_object`. -/
theorem senderHandlers_getHandler (value : Value) (cmd : ℤ) :
    (senderHandlers value).getHandler cmd =
      if cmd = 2 then some ((handlerTag .getObject).procedure (getObject value .getObject))
      else none := by
  by_cases hcmd : cmd = 2
  · rw [if_pos hcmd, hcmd]
    rfl
  · have hne : (2 : ℤ) ≠ cmd := Ne.symm hcmd
    rw [if_neg hcmd]
    simp [senderHandlers, channelHandlers, names, handlerTag, Lib.OrderedDict.assignAll,
      Lib.OrderedDict.assign, Lib.OrderedDict.find, hne]

/-- What a reply of a sender is: the object in answer to `get_object`, or an error. -/
theorem Exchange.Valid.cases {xdr : α → Value} {verdict : ℕ → Option (Bool × α)}
    {exchange : Exchange} (h : exchange.Valid xdr verdict) :
    (exchange.delivered = none ∧ exchange.request.cmd ≠ 2 ∧
      exchange.reply = exchange.request.reply (-3) []) ∨
    ∃ payload fields body, exchange.delivered = some payload ∧ exchange.request.cmd = 2 ∧
      Carries xdr verdict payload (.struct xdrObject.name fields) ∧
      encode xdrObject fields = some body ∧ exchange.reply = exchange.request.reply 0 body := by
  obtain ⟨value, hanswered, hcarries⟩ := h
  by_cases hcmd : exchange.request.cmd = 2
  · right
    have hfind : (senderHandlers value).getHandler exchange.request.cmd =
        some ((handlerTag .getObject).procedure (getObject value .getObject)) := by
      rw [senderHandlers_getHandler, if_pos hcmd]
    rcases hanswered.of_handler hfind rfl with ⟨code, hcall, _⟩ | ⟨ret, body, hcall, hbody, hreply⟩
    · cases hcall
    · have hcall' : (Outcome.returned (some value), true) =
          (.returned ret, exchange.delivered.isSome) := hcall
      cases hpayload : exchange.delivered with
      | none => simp [hpayload] at hcall'
      | some payload =>
        simp only [hpayload, Prod.mk.injEq, Outcome.returned.injEq] at hcall'
        rw [← hcall'.1] at hbody
        cases hbody with
        | @some cls fields _ hclass hencode =>
          obtain rfl : cls = xdrObject := (Option.some.inj hclass).symm
          exact ⟨payload, fields, body, rfl, hcmd, hcarries payload hpayload, hencode, hreply⟩
  · left
    have hfind : (senderHandlers value).getHandler exchange.request.cmd = none := by
      rw [senderHandlers_getHandler, if_neg hcmd]
    generalize hreply : exchange.reply = reply at hanswered
    generalize hsent : exchange.delivered.isSome = sent at hanswered
    cases hanswered with
    | unavailable _ => exact ⟨by simpa using hsent, hcmd, rfl⟩
    | undecodable hfind' _ => simp [hfind] at hfind'
    | raised hfind' _ _ => simp [hfind] at hfind'
    | returned hfind' _ _ _ => simp [hfind] at hfind'

/-- What the client of a search can rely on in every state. -/
structure ExactlyOnce (xdr : α → Value) (total : ℕ) (s : Shared α) : Prop where
  /-- The replies on the wire are those of the exchanges, in order. -/
  replies : s.sock.outgoing = wire (s.record.exchanges.map Exchange.reply)
  /-- The answered requests are the first ones of the client, each answered once. -/
  requests : s.record.exchanges.map Exchange.request <+: s.record.arrived.filter Frame.isRequest
  /-- A reply delivers an accepted object or the end marker in answer to `get_object`, or
  rejects another command. -/
  contents : ∀ exchange ∈ s.record.exchanges,
    (exchange.delivered = none ∧ exchange.request.cmd ≠ 2 ∧
      exchange.reply = exchange.request.reply (-3) []) ∨
    ∃ payload fields body, exchange.delivered = some payload ∧ exchange.request.cmd = 2 ∧
      Carries xdr s.record.verdict payload (.struct xdrObject.name fields) ∧
      encode xdrObject fields = some body ∧ exchange.reply = exchange.request.reply 0 body
  /-- No object is delivered twice. -/
  object : ∀ index, deliveries s.record.exchanges (.object index) ≤ 1
  /-- An object that was dropped, or has no verdict yet, is not delivered. -/
  dropped : ∀ index, (∀ obj, s.record.verdict index ≠ some (true, obj)) →
    deliveries s.record.exchanges (.object index) = 0
  /-- The end marker is not delivered twice. -/
  ended : deliveries s.record.exchanges .ended ≤ 1
  /-- When the end marker is delivered, every object of the scope has been evaluated, and
  every accepted one delivered. -/
  complete : deliveries s.record.exchanges .ended ≠ 0 → ∀ index < total,
    ∃ accept obj, s.record.verdict index = some (accept, obj) ∧
      deliveries s.record.exchanges (.object index) = if accept then 1 else 0
  /-- Nothing is delivered after the end marker. -/
  last : s.record.exchanges.Pairwise fun exchange later =>
    exchange.delivered = some .ended → later.delivered = none

/-- An object is delivered at most once, whatever its stage. -/
theorem deliveries_object_le {xdr : α → Value} {s : System (Shared α) (Proc α)}
    (hs : Holds (SharedInv xdr total) (ProcOk xdr) s) (index : ℕ) :
    deliveries s.shared.record.exchanges (.object index) ≤ 1 := by
  obtain ⟨hinv, hprocs⟩ := hs
  have hone : ∀ flag : Bool, (if flag then 1 else 0) ≤ 1 := by decide
  by_cases hdone : s.shared.record.stage index = .done
  · obtain ⟨accept, obj, _, hcount⟩ := hinv.ledger.settled index hdone
    exact hcount ▸ hone accept
  · by_cases hfree : ∀ pid, s.shared.record.stage index ≠ .taken pid
    · rw [(hinv.ledger.fresh index hdone hfree).2]
      exact Nat.zero_le 1
    · obtain ⟨pid, htaken⟩ : ∃ pid, s.shared.record.stage index = .taken pid := by
        simpa using hfree
      have hok := hprocs pid
      have hindex := (hok.owns index).mp htaken
      have hplace := hok.place
      generalize s.procs pid = p at hindex hplace
      cases p with
      | evaluating task =>
        obtain rfl : task.index = index := Option.some.inj hindex
        rw [hplace.2]
        exact Nat.zero_le 1
      | sending task sender =>
        obtain rfl : task.index = index := Option.some.inj hindex
        exact hplace.sent ▸ hone sender.sent
      | reporting task =>
        obtain rfl : task.index = index := Option.some.inj hindex
        obtain ⟨accept, obj, _, hcount⟩ := hplace
        exact hcount ▸ hone accept
      | absent => cases hindex
      | idle => cases hindex
      | enqueuing => cases hindex
      | joining => cases hindex
      | closing sender => cases hindex
      | finished => cases hindex

/-- In every state that is reached the end marker was delivered at most once. -/
theorem deliveries_ended_le {xdr : α → Value} {s : System (Shared α) (Proc α)}
    (hs : Holds (SharedInv xdr total) (ProcOk xdr) s) :
    deliveries s.shared.record.exchanges .ended ≤ 1 := by
  have hok := hs.2 0
  have hthread := hok.thread.mpr rfl
  have hplace := hok.place
  generalize s.procs 0 = p at hthread hplace
  cases p with
  | enqueuing => exact hplace ▸ Nat.zero_le 1
  | joining => exact hplace.2 ▸ Nat.zero_le 1
  | closing sender =>
    rw [hplace.2.sent]
    cases sender.sent <;> decide
  | finished => exact hplace.2.le
  | absent => cases hthread
  | idle => cases hthread
  | evaluating task => cases hthread
  | sending task sender => cases hthread
  | reporting task => cases hthread

/-- The invariant says what the client can rely on; nothing but the invariant is needed from the
run. -/
theorem exactlyOnce_of_holds {xdr : α → Value} {s : System (Shared α) (Proc α)}
    (hs : Holds (SharedInv xdr total) (ProcOk xdr) s) : ExactlyOnce xdr total s.shared := by
  have hinv := hs.1
  refine ⟨hinv.stream.outgoing, ?_, fun exchange hmem => (hinv.stream.valid exchange hmem).cases,
    deliveries_object_le hs, ?_, deliveries_ended_le hs, ?_, hinv.ledger.last⟩
  · obtain ⟨consumed, inbox, harrived, _, hconsumed⟩ := hinv.stream.incoming
    rw [harrived, List.filter_append, hconsumed]
    exact List.prefix_append _ _
  · intro index hnot
    by_contra hdelivered
    have hpos := Nat.pos_of_ne_zero hdelivered
    rw [deliveries, List.countP_pos_iff] at hpos
    obtain ⟨exchange, hmem, hpayload⟩ := hpos
    obtain ⟨value, _, hcarries⟩ := hinv.stream.valid exchange hmem
    obtain ⟨obj, hverdict, _⟩ := hcarries (.object index) (by simpa using hpayload)
    exact hnot obj hverdict
  · intro hended index hindex
    rcases hinv.ledger.ended hended index with hunknown | hdone
    · have hlarge := (hinv.queue.known index).mp hunknown
      omega
    · exact hinv.ledger.settled index hdone

/-! ## A search does not get stuck -/

/-- A request of the client is waiting for its reply. -/
def Waiting (record : Record α) : Prop :=
  record.exchanges.length < (record.arrived.filter Frame.isRequest).length

/-- The object without attributes, the end marker, is carried by a message. -/
theorem carried_emptyXdr : Carried (some xdrObject) (some emptyXdr) := by
  refine .some ⟨rfl, rfl, ⟨_, rfl, by decide, by simp⟩, trivial⟩ ?_
  intro body hencode
  cases hencode
  decide

/-- While a request is waiting, `dispatch` of a sender with an encodable object succeeds. -/
theorem dispatch_of_waiting {xdr : α → Value} {s : Shared α} {value : Value}
    (hinv : SharedInv xdr total s) (hwaiting : Waiting s.record)
    (hvalue : Carried (some xdrObject) (some value)) :
    ∃ server, dispatch (senderHandlers value) ⟨s.sock, false⟩ = (.ok (), server) := by
  obtain ⟨consumed, inbox, harrived, hincoming, hconsumed⟩ := hinv.stream.incoming
  have hrange : ∀ frame ∈ inbox, frame.InRange := fun frame hframe =>
    hinv.stream.inRange frame (harrived ▸ List.mem_append_right _ hframe)
  have hlaw : ∀ request, (senderHandlers value).LawfulOn request false := by
    intro request procedure argument hfind _
    rw [senderHandlers_getHandler] at hfind
    split at hfind
    · cases hfind
      exact hvalue
    · cases hfind
  have hread : ∀ request, (senderHandlers value).Readable request := by
    intro request procedure hfind
    rw [senderHandlers_getHandler] at hfind
    split at hfind
    · cases hfind
      exact fun h => by cases h
    · cases hfind
  rcases exists_request_split inbox with hnone | ⟨skipped, request, later, rfl, hskipped, hfirst⟩
  · have hempty : inbox.filter Frame.isRequest = [] := by
      rw [List.filter_eq_nil_iff]
      intro frame hframe
      rw [hnone frame hframe]
      exact Bool.false_ne_true
    rw [Waiting, harrived, List.filter_append, hconsumed, hempty] at hwaiting
    simp at hwaiting
  · rw [wire_append] at hincoming
    let sender : Server Bool := ⟨s.sock, false⟩
    have hlawful : (senderHandlers value).LawfulOn request sender.state := hlaw request
    obtain ⟨_, server, _, _, hdispatch, _⟩ := dispatch_answered hlawful
      (fun other hother => ⟨hrange other (List.mem_append_left _ hother), hskipped other hother⟩)
      (hrange request (by simp)) hfirst (hread request) hincoming
    exact ⟨server, hdispatch⟩

/-- A sender that holds the lock can move while a request is waiting: the request is read to its
end, whatever pieces it comes in. -/
theorem senderStep_of_waiting {xdr : α → Value} {s : Shared α} {pid : ℕ} {payload : Payload}
    {sender : Sender} (hinv : SharedInv xdr total s) (hok : SenderOk xdr s payload sender)
    (hencode : ∀ obj, Carried (some xdrObject) (some (xdr obj))) (hwaiting : Waiting s.record)
    (hheld : sender.phase ≠ .outside) : senderStep s pid sender ≠ none := by
  unfold senderStep
  cases hphase : sender.phase with
  | outside => exact absurd hphase hheld
  | answered => simp
  | inside =>
    have hvalue : Carried (some xdrObject) (some sender.obj) := by
      have hcarries := hok.carries
      cases payload with
      | ended =>
        have hempty : sender.obj = emptyXdr := hcarries
        rw [hempty]
        exact carried_emptyXdr
      | object index =>
        obtain ⟨obj, _, hobj⟩ := hcarries
        rw [hobj]
        exact hencode obj
    obtain ⟨server, hdispatch⟩ := dispatch_of_waiting hinv hwaiting hvalue
    rw [hok.inside hphase]
    simp [hdispatch]

/-- A sender outside of `dispatch` can move when the lock is free; it takes the lock then. -/
theorem senderStep_of_free {s : Shared α} {pid : ℕ} {sender : Sender}
    (hfree : s.lock = none) (houtside : sender.phase = .outside) :
    senderStep s pid sender ≠ none := by
  unfold senderStep
  cases hsent : sender.sent <;> simp [houtside, hfree]

/-- No call makes a thread out of a number that has none. -/
theorem call_ne_absent {xdr : α → Value} {s s' : Shared α} {pid : ℕ} {p p' : Proc α}
    {choice : Choice α} (h : call xdr s pid p choice = some (s', p')) : p' ≠ .absent := by
  rintro rfl
  unfold call at h
  split at h
  · split at h <;> simp at h
  · rename_i accept obj
    cases accept <;> simp at h
  · obtain ⟨⟨t, next⟩, _, hpair⟩ := Option.map_eq_some_iff.mp h
    cases next <;> simp [Proc.afterSend] at hpair
  · split at h <;> simp at h
  · split at h
    · split at h <;> simp at h
    · simp at h
  · split at h <;> simp at h
  · obtain ⟨⟨t, next⟩, _, hpair⟩ := Option.map_eq_some_iff.mp h
    cases next <;> simp [Proc.afterClose] at hpair
  · cases h

section

variable {xdr : α → Value} {s : System (Shared α) (Proc α)}

/-- No process can move. -/
def Stuck (xdr : α → Value) (s : System (Shared α) (Proc α)) : Prop :=
  ∀ pid choice, call xdr s.shared pid (s.procs pid) choice = none

/-- Where no step is possible, a thread inside `send` has none either. -/
theorem Stuck.senderStep_eq_none (hstuck : Stuck xdr s) {pid : ℕ} {sender : Sender}
    (h : (∃ task, s.procs pid = .sending task sender) ∨ s.procs pid = .closing sender) :
    senderStep s.shared pid sender = none := by
  have hnone := hstuck pid .next
  rcases h with ⟨task, hproc⟩ | hproc
  · rw [hproc] at hnone
    exact Option.map_eq_none_iff.mp hnone
  · rw [hproc] at hnone
    exact Option.map_eq_none_iff.mp hnone

/-- In a stuck search with a waiting request nobody holds the lock. -/
theorem Stuck.lock_free (hstuck : Stuck xdr s)
    (hs : Holds (SharedInv xdr total) (ProcOk xdr) s)
    (hencode : ∀ obj, Carried (some xdrObject) (some (xdr obj)))
    (hwaiting : Waiting s.shared.record) (pid : ℕ) : (s.procs pid).holds = false := by
  have hplace := (hs.2 pid).place
  cases hproc : s.procs pid with
  | sending task sender =>
    rw [hproc] at hplace
    by_contra hholds
    have hheld : sender.phase ≠ .outside := by simpa [Proc.holds] using hholds
    exact senderStep_of_waiting hs.1 hplace hencode hwaiting hheld
      (hstuck.senderStep_eq_none (Or.inl ⟨task, hproc⟩))
  | closing sender =>
    rw [hproc] at hplace
    by_contra hholds
    have hheld : sender.phase ≠ .outside := by simpa [Proc.holds] using hholds
    exact senderStep_of_waiting hs.1 hplace.2 hencode hwaiting hheld
      (hstuck.senderStep_eq_none (Or.inr hproc))
  | absent => rfl
  | idle => rfl
  | evaluating task => rfl
  | reporting task => rfl
  | enqueuing => rfl
  | joining => rfl
  | finished => rfl

/-- In a stuck search with a waiting request no worker is at an object. -/
theorem Stuck.index_eq_none (hstuck : Stuck xdr s)
    (hs : Holds (SharedInv xdr total) (ProcOk xdr) s)
    (hencode : ∀ obj, Carried (some xdrObject) (some (xdr obj)))
    (hwaiting : Waiting s.shared.record) (hlock : s.shared.lock = none) (pid : ℕ) :
    (s.procs pid).index = none := by
  have hfree := hstuck.lock_free hs hencode hwaiting pid
  cases hproc : s.procs pid with
  | evaluating task =>
    have hnone := hstuck pid (.evaluate true task.obj)
    rw [hproc] at hnone
    cases hnone
  | sending task sender =>
    rw [hproc] at hfree
    have houtside : sender.phase = .outside := by simpa [Proc.holds] using hfree
    exact absurd (hstuck.senderStep_eq_none (Or.inl ⟨task, hproc⟩))
      (senderStep_of_free hlock houtside)
  | reporting task =>
    have hnone := hstuck pid .next
    have htaken := ((hs.2 pid).owns task.index).mpr (by rw [hproc]; rfl)
    have hopen : (s.shared.record.stage task.index).isOpen = true := by rw [htaken]; rfl
    rw [hproc] at hnone
    simp [call, hs.1.queue.unfinished_pos hopen] at hnone
  | absent => rfl
  | idle => rfl
  | enqueuing => rfl
  | joining => rfl
  | closing sender => rfl
  | finished => rfl

/-- A search with a worker that cannot go on although a request is waiting has finished. -/
theorem Stuck.finished (hstuck : Stuck xdr s)
    (hs : Holds (SharedInv xdr total) (ProcOk xdr) s)
    (hencode : ∀ obj, Carried (some xdrObject) (some (xdr obj)))
    (hwaiting : Waiting s.shared.record) (hworker : s.procs 1 ≠ .absent) :
    s.procs 0 = .finished := by
  have hlock : s.shared.lock = none := by
    cases hheld : s.shared.lock with
    | none => rfl
    | some pid =>
      have hholds := (hs.2 pid).lock.mpr hheld
      rw [hstuck.lock_free hs hencode hwaiting pid] at hholds
      cases hholds
  have hindex := hstuck.index_eq_none hs hencode hwaiting hlock
  have hidle : s.procs 1 = .idle := by
    have hthread := (hs.2 1).thread
    have hnone := hindex 1
    cases hproc : s.procs 1 with
    | absent => exact absurd hproc hworker
    | idle => rfl
    | evaluating task => simp [hproc, Proc.index] at hnone
    | sending task sender => simp [hproc, Proc.index] at hnone
    | reporting task => simp [hproc, Proc.index] at hnone
    | enqueuing => simp [hproc, Proc.isThread] at hthread
    | joining => simp [hproc, Proc.isThread] at hthread
    | closing sender => simp [hproc, Proc.isThread] at hthread
    | finished => simp [hproc, Proc.isThread] at hthread
  have hqueue : s.shared.queue = [] := by
    have hnone := hstuck 1 .next
    rw [hidle] at hnone
    cases hqueue : s.shared.queue with
    | nil => rfl
    | cons task rest => simp [call, hqueue] at hnone
  have hnext := hstuck 0 .next
  have hthread := (hs.2 0).thread.mpr rfl
  cases hproc : s.procs 0 with
  | finished => rfl
  | enqueuing =>
    rw [hproc] at hnext
    cases hscope : s.shared.scope with
    | nil => simp [call, hscope] at hnext
    | cons task rest => simp [call, hscope, hqueue, maxsize] at hnext
  | joining =>
    have hzero : s.shared.unfinished = 0 := by
      obtain ⟨opened, _, hlength, hmem⟩ := hs.1.queue.counted
      rw [← hlength, List.length_eq_zero_iff, List.eq_nil_iff_forall_not_mem]
      intro index hopened
      have hopen := (hmem index).mp hopened
      cases hstage : s.shared.record.stage index with
      | queued =>
        have hqueued := (hs.1.queue.queueStage index).mp hstage
        simp [hqueue] at hqueued
      | taken pid =>
        have howned := ((hs.2 pid).owns index).mp hstage
        rw [hindex pid] at howned
        cases howned
      | unknown => simp [hstage, Stage.isOpen] at hopen
      | inScope => simp [hstage, Stage.isOpen] at hopen
      | done => simp [hstage, Stage.isOpen] at hopen
    rw [hproc] at hnext
    simp [call, hzero] at hnext
  | closing sender =>
    have hfree := hstuck.lock_free hs hencode hwaiting 0
    rw [hproc] at hfree
    have houtside : sender.phase = .outside := by simpa [Proc.holds] using hfree
    exact absurd (hstuck.senderStep_eq_none (Or.inr hproc)) (senderStep_of_free hlock houtside)
  | absent => simp [hproc, Proc.isThread] at hthread
  | idle => simp [hproc, Proc.isThread] at hthread
  | evaluating task => simp [hproc, Proc.isThread] at hthread
  | sending task sender => simp [hproc, Proc.isThread] at hthread
  | reporting task => simp [hproc, Proc.isThread] at hthread

end

/-! ## A search does not run on -/

/-- What is left to do in a call of `send`, up to the next request. -/
def Sender.weight (sender : Sender) : ℕ :=
  match sender.phase with
  | .outside => 2
  | .inside => 1
  | .answered => 3

/-- What is left to do for a process, apart from the objects that it has not taken yet. -/
def Proc.weight : Proc α → ℕ
  | .evaluating _ => 3
  | .sending _ sender => sender.weight
  | .reporting _ => 1
  | .enqueuing => 4
  | .joining => 3
  | .closing sender => sender.weight
  | _ => 0

/-- What is left to do for an object. -/
def Stage.weight (procs : ℕ → Proc α) : Stage → ℕ
  | .inScope => 5
  | .queued => 4
  | .taken pid => (procs pid).weight
  | _ => 0

/-- What is left to do, for the objects and for the thread. -/
def remaining (total : ℕ) (s : System (Shared α) (Proc α)) : ℕ :=
  (∑ index ∈ Finset.range total, (s.shared.record.stage index).weight s.procs) +
    (s.procs 0).weight

/-- What a worker has left to do for its object after a step of its sender. -/
def Sender.rest : Option Sender → ℕ
  | some sender => sender.weight
  | none => 1

/-- A step of a sender leaves less to do, unless it answers a request. -/
theorem senderStep_weight {xdr : α → Value} {s s' : Shared α} {pid : ℕ} {payload : Payload}
    {sender : Sender} {next : Option Sender} (hinv : SharedInv xdr total s)
    (hok : SenderOk xdr s payload sender) (h : senderStep s pid sender = some (s', next)) :
    1 + Sender.rest next + 3 * s.record.exchanges.length ≤
      sender.weight + 3 * s'.record.exchanges.length := by
  unfold senderStep at h
  split at h
  · rename_i hphase
    split at h
    · cases h
      simp [Sender.rest, Sender.weight, hphase]
    · split at h
      · cases h
        simp [Sender.rest, Sender.weight, hphase]
      · cases h
  · rename_i hphase
    split at h
    · rename_i server hdispatch
      cases h
      obtain rfl := hok.sends
      obtain ⟨exchange, hexchange, _, _⟩ :=
        hinv.stream.exchange (hok.inside hphase) hok.carries hdispatch
      have hlength : (s.exchange sender server.sock).record.exchanges.length =
          s.record.exchanges.length + 1 := by
        simp [Shared.exchange, hexchange]
      rw [hlength]
      simp only [Sender.rest, Sender.weight, hphase]
      omega
    · cases h
  · rename_i hphase
    cases h
    simp [Sender.rest, Sender.weight, hphase]

section

variable {s s' : Shared α} {procs : ℕ → Proc α} {pid : ℕ} {p : Proc α}

/-- An object that a process is not at has as much left to do when the process moves. -/
theorem weight_update {stage : Stage} (h : stage ≠ .taken pid) :
    stage.weight (Function.update procs pid p) = stage.weight procs := by
  cases stage with
  | taken other =>
    have hne : other ≠ pid := fun heq => h (heq ▸ rfl)
    rw [Stage.weight, Stage.weight, Function.update_of_ne hne]
  | _ => rfl

/-- A step that is about one object uses up what remains by what this object's own summand loses;
all other summands are the same. -/
theorem remaining_le_of_index {cost : ℕ} (gain : ℕ) {k : ℕ} (hk : k < total)
    (hsame : ∀ index, index ≠ k → s'.record.stage index = s.record.stage index ∧
      s.record.stage index ≠ .taken pid)
    (hone : cost + (s'.record.stage k).weight (Function.update procs pid p) +
        (Function.update procs pid p 0).weight ≤
      (s.record.stage k).weight procs + (procs 0).weight + gain) :
    cost + remaining total ⟨s', Function.update procs pid p⟩ ≤
      remaining total ⟨s, procs⟩ + gain := by
  have hmem : k ∈ Finset.range total := Finset.mem_range.mpr hk
  have hrest : ∑ index ∈ (Finset.range total).erase k,
      (s'.record.stage index).weight (Function.update procs pid p) =
      ∑ index ∈ (Finset.range total).erase k, (s.record.stage index).weight procs := by
    refine Finset.sum_congr rfl fun index hindex => ?_
    obtain ⟨hstage, hfree⟩ := hsame index (Finset.mem_erase.mp hindex).1
    rw [hstage, weight_update hfree]
  simp only [remaining]
  rw [← Finset.add_sum_erase _ _ hmem, ← Finset.add_sum_erase _ _ hmem, hrest]
  omega

/-- A step of the main thread that is about no object uses up what its own weight loses. -/
theorem remaining_le_of_thread {cost gain : ℕ}
    (hsame : ∀ index, s'.record.stage index = s.record.stage index ∧
      s.record.stage index ≠ .taken 0)
    (hone : cost + p.weight ≤ (procs 0).weight + gain) :
    cost + remaining total ⟨s', Function.update procs 0 p⟩ ≤ remaining total ⟨s, procs⟩ + gain := by
  have hsum : ∑ index ∈ Finset.range total,
      (s'.record.stage index).weight (Function.update procs 0 p) =
      ∑ index ∈ Finset.range total, (s.record.stage index).weight procs := by
    refine Finset.sum_congr rfl fun index _ => ?_
    obtain ⟨hstage, hfree⟩ := hsame index
    rw [hstage, weight_update hfree]
  simp only [remaining]
  rw [hsum, Function.update_self]
  omega

end

/-- A step inside `send` moves no task to another stage. -/
theorem senderStep_stage {s s' : Shared α} {pid : ℕ} {sender : Sender} {next : Option Sender}
    (h : senderStep s pid sender = some (s', next)) : s'.record.stage = s.record.stage := by
  unfold senderStep at h
  split at h
  · split at h
    · cases h
      rfl
    · split at h
      · cases h
        rfl
      · cases h
  · split at h
    · cases h
      rfl
    · cases h
  · cases h
    rfl

section

variable {xdr : α → Value} {s : System (Shared α) (Proc α)} {s' : Shared α} {pid : ℕ}
  {cost gain : ℕ}

/-- An object that the queue knows is one of the scope. -/
theorem index_lt_of_stage (hs : Holds (SharedInv xdr total) (ProcOk xdr) s) {index : ℕ}
    (h : s.shared.record.stage index ≠ .unknown) : index < total :=
  Nat.lt_of_not_le fun hle => h ((hs.1.queue.known index).mpr hle)

/-- Only a worker has a task; the main thread and a number without a thread do not count. -/
theorem isThread_of_index {p : Proc α} {index : ℕ} (h : p.index = some index) :
    p.isThread = false := by
  cases p <;> first | rfl | cases h

variable (gain) in
/-- A step of a worker that is at an object counts for this object alone, as nobody else is at
it. -/
theorem remaining_le_of_owner (hs : Holds (SharedInv xdr total) (ProcOk xdr) s) {index : ℕ}
    (howner : (s.procs pid).index = some index) {p' : Proc α}
    (hothers : ∀ other, other ≠ index →
      s'.record.stage other = s.shared.record.stage other)
    (hone : cost + (s'.record.stage index).weight (Function.update s.procs pid p') ≤
      (s.procs pid).weight + gain) :
    cost + remaining total ⟨s', Function.update s.procs pid p'⟩ ≤ remaining total s + gain := by
  have hok := hs.2 pid
  have htaken := (hok.owns index).mpr howner
  have hpid : 0 ≠ pid := by
    intro hzero
    have hthread := hok.thread.mpr hzero.symm
    rw [isThread_of_index howner] at hthread
    cases hthread
  refine remaining_le_of_index _ (index_lt_of_stage hs (by rw [htaken]; simp)) ?_ ?_
  · intro other hother
    refine ⟨hothers other hother, fun h => hother ?_⟩
    exact Option.some.inj (((hok.owns other).mp h).symm.trans howner)
  · rw [htaken, Stage.weight, Function.update_of_ne hpid]
    omega

/-- A process that is at no object has taken none. -/
theorem stage_ne_of_index (hs : Holds (SharedInv xdr total) (ProcOk xdr) s)
    (h : (s.procs pid).index = none) (index : ℕ) :
    s.shared.record.stage index ≠ .taken pid := by
  intro htaken
  rw [((hs.2 pid).owns index).mp htaken] at h
  cases h

/-- Taking a task uses up one of the steps that remain. -/
theorem take_remaining (hs : Holds (SharedInv xdr total) (ProcOk xdr) s) {task : Task α}
    {rest : List (Task α)} (hproc : s.procs pid = .idle) (hqueue : s.shared.queue = task :: rest) :
    1 + remaining total ⟨s.shared.take pid task rest,
      Function.update s.procs pid (.evaluating task)⟩ ≤ remaining total s := by
  have hstage : s.shared.record.stage task.index = .queued :=
    (hs.1.queue.queueStage _).mpr (by simp [hqueue])
  have hpid : 0 ≠ pid := by
    rintro rfl
    have hthread := (hs.2 0).thread.mpr rfl
    rw [hproc] at hthread
    cases hthread
  refine remaining_le_of_index 0 (index_lt_of_stage hs (by rw [hstage]; simp)) ?_ ?_
  · intro other hother
    exact ⟨Function.update_of_ne hother _ _, stage_ne_of_index hs (by rw [hproc]; rfl) other⟩
  · have hnew : (s.shared.take pid task rest).record.stage task.index = .taken pid :=
      Function.update_self _ _ _
    rw [hnew, hstage, Stage.weight, Stage.weight, Function.update_self, Function.update_of_ne hpid]
    simp only [Proc.weight]
    omega

/-- A verdict uses up one of the steps that remain, on either branch. -/
theorem judge_remaining (hs : Holds (SharedInv xdr total) (ProcOk xdr) s) {task : Task α}
    (hproc : s.procs pid = .evaluating task) (accept : Bool) (obj : α) :
    1 + remaining total ⟨s.shared.judge task.index accept obj, Function.update s.procs pid
      (if accept then .sending task (.new (.object task.index) (xdr obj)) else .reporting task)⟩ ≤
      remaining total s := by
  have howner : (s.procs pid).index = some task.index := by
    rw [hproc]
    rfl
  refine remaining_le_of_owner 0 hs howner (fun _ _ => rfl) ?_
  have hstage : (s.shared.judge task.index accept obj).record.stage task.index = .taken pid :=
    ((hs.2 pid).owns task.index).mpr howner
  rw [hstage, hproc, Stage.weight, Function.update_self]
  cases accept <;> simp [Proc.weight, Sender.weight, Sender.new]

/-- `task_done` uses up one of the steps that remain. -/
theorem taskDone_remaining (hs : Holds (SharedInv xdr total) (ProcOk xdr) s) {task : Task α}
    (hproc : s.procs pid = .reporting task) :
    1 + remaining total ⟨s.shared.taskDone task.index, Function.update s.procs pid .idle⟩ ≤
      remaining total s := by
  have howner : (s.procs pid).index = some task.index := by
    rw [hproc]
    rfl
  refine remaining_le_of_owner 0 hs howner
    (fun _ hother => Function.update_of_ne hother _ _) ?_
  have hstage : (s.shared.taskDone task.index).record.stage task.index = .done :=
    Function.update_self _ _ _
  rw [hstage, hproc]
  exact Nat.le_refl 1

/-- A step of `send` uses up one of the steps that remain, or three of them are allowed anew by an
exchange that the client has made possible. -/
theorem sending_remaining (hs : Holds (SharedInv xdr total) (ProcOk xdr) s) {task : Task α}
    {sender : Sender} {next : Option Sender} (hproc : s.procs pid = .sending task sender)
    (h : senderStep s.shared pid sender = some (s', next)) :
    1 + 3 * s.shared.record.exchanges.length +
        remaining total ⟨s', Function.update s.procs pid (.afterSend task next)⟩ ≤
      remaining total s + 3 * s'.record.exchanges.length := by
  have howner : (s.procs pid).index = some task.index := by
    rw [hproc]
    rfl
  have hplace := (hs.2 pid).place
  rw [hproc] at hplace
  have hweight := senderStep_weight hs.1 hplace h
  refine remaining_le_of_owner _ hs howner
    (fun other _ => congrFun (senderStep_stage h) other) ?_
  have hstage : s'.record.stage task.index = .taken pid := by
    rw [senderStep_stage h]
    exact ((hs.2 pid).owns task.index).mpr howner
  have hafter : (Proc.afterSend task next).weight = Sender.rest next := by
    cases next <;> rfl
  rw [hstage, hproc, Stage.weight, Function.update_self, hafter, Proc.weight]
  omega

/-- Putting a task into the queue uses up one of the steps that remain. -/
theorem put_remaining (hs : Holds (SharedInv xdr total) (ProcOk xdr) s) {task : Task α}
    {rest : List (Task α)} (hproc : s.procs 0 = .enqueuing)
    (hscope : s.shared.scope = task :: rest) :
    1 + remaining total ⟨s.shared.put task rest, Function.update s.procs 0 .enqueuing⟩ ≤
      remaining total s := by
  have hstage : s.shared.record.stage task.index = .inScope :=
    (hs.1.queue.scopeStage _).mpr (by simp [hscope])
  refine remaining_le_of_index 0 (index_lt_of_stage hs (by rw [hstage]; simp)) ?_ ?_
  · intro other hother
    exact ⟨Function.update_of_ne hother _ _, stage_ne_of_index hs (by rw [hproc]; rfl) other⟩
  · have hnew : (s.shared.put task rest).record.stage task.index = .queued :=
      Function.update_self _ _ _
    rw [hnew, hstage, Stage.weight, Stage.weight, Function.update_self, hproc]
    simp only [Proc.weight]
    omega

/-- A step of the thread that is about no object. -/
theorem thread_remaining (hs : Holds (SharedInv xdr total) (ProcOk xdr) s)
    (hindex : (s.procs 0).index = none) {p' : Proc α}
    (hstage : s'.record.stage = s.shared.record.stage)
    (hone : cost + p'.weight ≤ (s.procs 0).weight + gain) :
    cost + remaining total ⟨s', Function.update s.procs 0 p'⟩ ≤ remaining total s + gain :=
  remaining_le_of_thread (fun index => ⟨congrFun hstage index, stage_ne_of_index hs hindex index⟩)
    hone

/-- The same account as for a worker's `send`, for the end marker. -/
theorem closing_remaining (hs : Holds (SharedInv xdr total) (ProcOk xdr) s) {sender : Sender}
    {next : Option Sender} (hproc : s.procs 0 = .closing sender)
    (h : senderStep s.shared 0 sender = some (s', next)) :
    1 + 3 * s.shared.record.exchanges.length +
        remaining total ⟨s', Function.update s.procs 0 (.afterClose next)⟩ ≤
      remaining total s + 3 * s'.record.exchanges.length := by
  have hplace := (hs.2 0).place
  rw [hproc] at hplace
  have hweight := senderStep_weight hs.1 hplace.2 h
  refine thread_remaining hs (by rw [hproc]; rfl) (senderStep_stage h) ?_
  have hafter : (Proc.afterClose next : Proc α).weight ≤ Sender.rest next := by
    cases next with
    | some sender => exact Nat.le_refl _
    | none => exact Nat.zero_le 1
  rw [hproc, Proc.weight]
  omega

/-- Every step of a process leaves less to do, unless it answers a request. -/
theorem call_remaining (hs : Holds (SharedInv xdr total) (ProcOk xdr) s) {p' : Proc α}
    {choice : Choice α} (h : call xdr s.shared pid (s.procs pid) choice = some (s', p')) :
    1 + 3 * s.shared.record.exchanges.length +
        remaining total ⟨s', Function.update s.procs pid p'⟩ ≤
      remaining total s + 3 * s'.record.exchanges.length := by
  have hthread : (s.procs pid).isThread = true → pid = 0 := (hs.2 pid).thread.mp
  generalize hproc : s.procs pid = p at h hthread
  unfold call at h
  split at h
  · split at h
    · rename_i hqueue
      cases h
      have hless := take_remaining hs hproc hqueue
      simp only [Shared.take] at hless ⊢
      omega
    · cases h
  · rename_i task accept obj
    cases h
    have hless := judge_remaining hs hproc accept obj
    simp only [Shared.judge] at hless ⊢
    omega
  · obtain ⟨⟨t, next⟩, hstep, hpair⟩ := Option.map_eq_some_iff.mp h
    cases hpair
    exact sending_remaining hs hproc hstep
  · split at h
    · cases h
    · cases h
      have hless := taskDone_remaining hs hproc
      simp only [Shared.taskDone] at hless ⊢
      omega
  · obtain rfl := hthread rfl
    split at h
    · rename_i hscope
      split at h
      · cases h
        have hless := put_remaining hs hproc hscope
        simp only [Shared.put] at hless ⊢
        omega
      · cases h
    · cases h
      refine thread_remaining hs (by rw [hproc]; rfl) rfl ?_
      rw [hproc]
      simp only [Proc.weight]
      omega
  · obtain rfl := hthread rfl
    split at h
    · cases h
      refine thread_remaining hs (by rw [hproc]; rfl) rfl ?_
      rw [hproc]
      simp only [Proc.weight, Sender.weight, Sender.new]
      omega
    · cases h
  · obtain rfl := hthread rfl
    obtain ⟨⟨t, next⟩, hstep, hpair⟩ := Option.map_eq_some_iff.mp h
    cases hpair
    exact closing_remaining hs hproc hstep
  · cases h

end

/-- At the start five steps remain for each object, and four for the end marker. -/
theorem remaining_initial (count : ℕ) (objs : List α) (schedule : ℕ → ℕ) :
    remaining objs.length (initial count objs schedule) = 5 * objs.length + 4 := by
  have hstage : ∀ index ∈ Finset.range objs.length,
      ((initial count objs schedule).shared.record.stage index).weight
        (initial count objs schedule).procs = 5 := by
    intro index hindex
    rw [initial_stage, if_pos (Finset.mem_range.mp hindex)]
    rfl
  rw [remaining, Finset.sum_const_nat hstage, Finset.card_range, Nat.mul_comm]
  rfl

/-- A run with so many answered requests has no more steps of its processes: no process goes
round in its loop without an answer to a request. -/
theorem steps_le_of_exec {xdr : α → Value} {count : ℕ} {objs : List α} {schedule : ℕ → ℕ}
    {labels : List (Label (Choice α) { frame : Frame // frame.InRange })}
    {t : System (Shared α) (Proc α)}
    (hr : exec (searchStep xdr) (initial count objs schedule) labels = some t) :
    labels.countP Label.isProc ≤
      5 * objs.length + 4 + 3 * t.shared.record.exchanges.length := by
  have hinv : ∀ (s : System (Shared α) (Proc α)) label t,
      Holds (SharedInv xdr objs.length) (ProcOk xdr) s → searchStep xdr s label = some t →
      Holds (SharedInv xdr objs.length) (ProcOk xdr) t := by
    intro s label t hs h
    have hone : exec (searchStep xdr) s [label] = some t := by rw [exec_cons h, exec_nil]
    exact run_holds hs hone
  have hstep : ∀ (s : System (Shared α) (Proc α)) label t,
      Holds (SharedInv xdr objs.length) (ProcOk xdr) s → searchStep xdr s label = some t →
      (if label.isProc then 1 else 0) + remaining objs.length t +
          3 * s.shared.record.exchanges.length ≤
        remaining objs.length s + 3 * t.shared.record.exchanges.length := by
    intro s label t hs h
    cases label with
    | proc pid choice =>
      obtain ⟨shared, p, hp, rfl⟩ := step_proc_eq_some.mp h
      have hless := call_remaining hs hp
      simp only [Label.isProc, if_true]
      omega
    | env event =>
      obtain ⟨shared, hshared, rfl⟩ := step_env_eq_some.mp h
      cases hshared
      simp [Label.isProc, remaining]
  have hsteps := exec_countP_le hinv hstep (initial_holds xdr count objs schedule) hr
  rw [remaining_initial] at hsteps
  have hnone : (initial count objs schedule).shared.record.exchanges = [] := rfl
  rw [hnone, List.length_nil] at hsteps
  omega

/-- In every state of every run of a search, whatever the workers, the scope, the verdicts and
the messages of the client: what the client can rely on holds, and the processes have made no more
steps than their objects and the answered requests account for. And if there is a worker, the
objects can be encoded and a request is waiting, then the search can go on until every
object of the scope is settled and the end marker has been delivered. -/
theorem blast_exactly_once {xdr : α → Value} {count : ℕ} {objs : List α} {schedule : ℕ → ℕ}
    {labels : List (Label (Choice α) { frame : Frame // frame.InRange })}
    {t : System (Shared α) (Proc α)}
    (hr : exec (searchStep xdr) (initial count objs schedule) labels = some t) :
    ExactlyOnce xdr objs.length t.shared ∧
      labels.countP Label.isProc ≤
        5 * objs.length + 4 + 3 * t.shared.record.exchanges.length ∧
      (0 < count → (∀ obj, Carried (some xdrObject) (some (xdr obj))) →
        Waiting t.shared.record → Stuck xdr t →
        deliveries t.shared.record.exchanges .ended = 1 ∧
        ∀ index < objs.length, Settled t.shared.record.verdict t.shared.record.exchanges index) := by
  have hs := run_holds (initial_holds xdr count objs schedule) hr
  have honce := exactlyOnce_of_holds hs
  refine ⟨honce, steps_le_of_exec hr, fun hcount hencode hwaiting hstuck => ?_⟩
  have hworker : t.procs 1 ≠ .absent := by
    have hstart : (initial count objs schedule).procs 1 ≠ .absent := by
      have hone : 1 ≤ count := hcount
      simp [initial, hone]
    exact exec_local (R := fun _ p => p ≠ .absent) (n := 0)
      (fun _ _ _ _ _ _ _ hcall => call_ne_absent hcall) hstart hr
  have hfinished := hstuck.finished hs hencode hwaiting hworker
  have hplace := (hs.2 0).place
  rw [hfinished] at hplace
  have hended : deliveries t.shared.record.exchanges .ended ≠ 0 := by
    rw [hplace.2]
    exact Nat.one_ne_zero
  exact ⟨hplace.2, honce.complete hended⟩

/-- A request for an object. -/
def objectRequest : { frame : Frame // frame.InRange } :=
  ⟨⟨0, -1, 2, []⟩, by constructor <;> decide⟩

/-- An object with one attribute, of one byte. -/
def byteXdr (flag : Bool) : Value :=
  .struct xdrObject.name [("attrs", .list [.struct xdrAttribute.name
    [("name", .text (Lib.Unicode.ofString "a")), ("value", .bytes [if flag then 1 else 0])]])]

/-- An object of one byte is carried by a message. -/
theorem carried_byteXdr (flag : Bool) : Carried (some xdrObject) (some (byteXdr flag)) := by
  have hattr : Fits Encodable xdrAttribute.handler (.struct xdrAttribute.name
      [("name", .text (Lib.Unicode.ofString "a")), ("value", .bytes [if flag then 1 else 0])]) :=
    ⟨rfl, rfl, ⟨_, rfl, _, rfl, by decide⟩, ⟨_, rfl, (by decide : 1 < 2 ^ 32)⟩, trivial⟩
  refine .some ⟨rfl, rfl, ⟨_, rfl, (by decide : 1 < 2 ^ 32), ?_⟩, trivial⟩ ?_
  · intro value hvalue
    rw [List.mem_singleton.mp hvalue]
    exact hattr
  · intro body hencode
    cases flag <;>
    · cases hencode
      decide +kernel

/-- Two workers take an object each. The first one drops its object, the second one sends its
object, and then the thread sends the end marker. The last of three requests waits. -/
def twoObjects : List (Label (Choice Bool) { frame : Frame // frame.InRange }) :=
  [.env objectRequest, .proc 0 .next, .proc 0 .next, .proc 1 .next, .proc 2 .next,
    .env objectRequest, .proc 1 (.evaluate false true), .proc 2 (.evaluate true true),
    .proc 0 .next, .proc 2 .next, .proc 1 .next, .proc 2 .next, .proc 2 .next, .proc 2 .next, .proc 2 .next,
    .env objectRequest, .proc 0 .next, .proc 0 .next, .proc 0 .next, .proc 0 .next, .proc 0 .next]

/-- The thread has finished and the two workers have nothing to take. -/
def atRest (s : System (Shared Bool) (Proc Bool)) : Bool :=
  match s.shared.queue, s.procs 0, s.procs 1, s.procs 2 with
  | [], .finished, .idle, .idle => true
  | _, _, _, _ => false

/-- Nobody can move at the end of a run with two workers that leaves them at rest. -/
theorem stuck_of_atRest {xdr : Bool → Value} {objs : List Bool} {schedule : ℕ → ℕ}
    {labels : List (Label (Choice Bool) { frame : Frame // frame.InRange })}
    {t : System (Shared Bool) (Proc Bool)}
    (hr : exec (searchStep xdr) (initial 2 objs schedule) labels = some t) (h : atRest t) :
    Stuck xdr t := by
  have habsent : ∀ pid, 2 < pid → t.procs pid = .absent := by
    intro pid hpid
    have hstart : (initial 2 objs schedule).procs pid = .absent := by
      simp only [initial]
      rw [if_neg (by omega), if_neg (by omega)]
    refine exec_local (R := fun _ p => p = .absent) (n := 0) ?_ hstart hr
    rintro _ _ _ _ _ _ rfl hcall
    cases hcall
  unfold atRest at h
  split at h
  · rename_i hqueue hthread hfirst hsecond
    intro pid choice
    match pid with
    | 0 => rw [hthread]; rfl
    | 1 => rw [hfirst]; cases choice <;> simp [call, hqueue]
    | 2 => rw [hsecond]; cases choice <;> simp [call, hqueue]
    | n + 3 => rw [habsent (n + 3) (by omega)]; rfl
  · cases h

/-- With two objects, of which the first is dropped, the second object and the end marker are
delivered, each to a request of its own, and the search has come to its end. -/
theorem blast_exactly_once_twoObjects :
    ∃ t, exec (searchStep byteXdr) (initial 2 [false, false] fun _ => 0) twoObjects = some t ∧
      Waiting t.shared.record ∧ Stuck byteXdr t ∧ ExactlyOnce byteXdr 2 t.shared ∧
      twoObjects.countP Label.isProc ≤ 14 + 3 * t.shared.record.exchanges.length ∧
      deliveries t.shared.record.exchanges .ended = 1 ∧
      Settled t.shared.record.verdict t.shared.record.exchanges 0 ∧
      Settled t.shared.record.verdict t.shared.record.exchanges 1 ∧
      t.shared.record.exchanges.map Exchange.delivered = [some (.object 1), some .ended] := by
  have hrun : (exec (searchStep byteXdr) (initial 2 [false, false] fun _ => 0) twoObjects).map
      (fun t => atRest t && decide (t.shared.record.exchanges.map Exchange.delivered =
          [some (.object 1), some .ended] ∧
        t.shared.record.exchanges.length <
          (t.shared.record.arrived.filter Frame.isRequest).length)) = some true := by
    decide +kernel
  obtain ⟨t, ht, hend⟩ := Option.map_eq_some_iff.mp hrun
  obtain ⟨hrest, hdelivered, hwaiting⟩ := by simpa using hend
  have hstuck := stuck_of_atRest ht hrest
  obtain ⟨honce, hsteps, hall⟩ := blast_exactly_once ht
  obtain ⟨hended, hsettled⟩ := hall (by decide) carried_byteXdr hwaiting hstuck
  exact ⟨t, ht, hwaiting, hstuck, honce, hsteps, hended, hsettled 0 (by decide),
    hsettled 1 (by decide), by simpa using hdelivered⟩

end OpenDiamond.BlastChannel
