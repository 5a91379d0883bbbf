import OpenDiamond.DiamondObject
import OpenDiamond.Lib.Runs
import OpenDiamond.ReplyMatching

/-!
# The blast set of the blaster

`_DiamondBlastSet` runs on an event loop. A coroutine for each connection asks
for the next result and passes it to the object callback, until the set is
paused, the search ends or the connection fails. A step is what happens
between two suspensions: a call from outside, or a reply to a coroutine with
the calls its callback makes. Sets are lists in the order of iteration, which
nothing depends on. Both callbacks are given, and return.

A request for an object has no body, and the body that `_send_message` then adds
to the bytes of the header is an argument here. It is a text in the source, which
cannot be added, so that the first request ends every coroutine. With a body of
bytes each connection keeps its place.
-/

namespace OpenDiamond.BlasterSearch

open Lib.OrderedDict Lib.Runs DiamondObject
open ReplyMatching (Body)

/-- What a callback was told. -/
inductive Output where
  /-- An object of a connection. -/
  | object (conn : ℕ) (obj : Dict String Bytes)
  | finished

/-- The blast set and its connections. -/
structure State where
  /-- `_connections`. -/
  connections : List ℕ
  /-- `_blocking`. -/
  blocking : List ℕ
  /-- `_started`. -/
  started : Bool
  /-- `_paused`. -/
  paused : Bool
  /-- Coroutines of a connection waiting for a reply. -/
  handlers : ℕ → ℕ
  /-- `_finished` of a connection. -/
  finished : ℕ → Bool
  /-- A coroutine of the connection ended with an exception. -/
  failed : ℕ → Bool
  /-- The callbacks, in order. -/
  log : List Output

/-- `_DiamondBlastSet.__init__`. -/
def State.init (connections : List ℕ) : State :=
  ⟨connections.dedup, connections.dedup, false, false, fun _ => 0, fun _ => false,
    fun _ => false, []⟩

/-- What a program calls. -/
inductive Call where
  | start
  | pause
  | resume

namespace State

section Program

variable (body : Body)

/-- The end of a search in `_handle_objects`. -/
def endOfSearch (s : State) (conn : ℕ) : State :=
  let connections := s.connections.filter (· ≠ conn)
  { s with
    connections
    blocking := s.blocking.filter (· ≠ conn)
    log := if connections = [] then s.log ++ [.finished] else s.log }

/-- The loop of `_handle_objects` until it waits for a reply or ends. A
connection that has finished gives no result without a request, and a request that
cannot be written ends the coroutine with a `TypeError`, which no handler catches. -/
def handleObjects (s : State) (conn : ℕ) : State :=
  if s.paused then { s with blocking := s.blocking.insert conn }
  else if s.finished conn then s.endOfSearch conn
  else if body.addable then
    { s with handlers := Function.update s.handlers conn (s.handlers conn + 1) }
  else s

/-- `_try_start`. An exception of a coroutine may end the loop as well; the other
connections are then left without a coroutine, as they are here. -/
def tryStart (s : State) : State :=
  if s.started && !s.paused then
    s.blocking.foldl (handleObjects body) { s with blocking := [] }
  else s

/-- `start`, `pause` and `resume`. Another `start` fails its assertion. -/
def call (s : State) : Call → State
  | .start => if s.started then s else tryStart body { s with started := true }
  | .pause => { s with paused := true }
  | .resume => tryStart body { s with paused := false }

/-- One coroutine of the connection goes on. -/
def wake (s : State) (conn : ℕ) : State :=
  { s with handlers := Function.update s.handlers conn (s.handlers conn - 1) }

end Program

end State

/-- What the event loop delivers. -/
inductive Event where
  /-- A call from outside. -/
  | call (call : Call)
  /-- A reply, with the calls made by the callback that it causes. -/
  | reply (conn : ℕ) (attrs : List (String × Bytes)) (calls : List Call)
  /-- `get_result` raises `ConnectionFailure`. -/
  | connectionFailure (conn : ℕ)
  /-- `get_result` raises another `RPCError`, and the connection is closed. -/
  | rpcError (conn : ℕ)

namespace State

section Program

variable (body : Body)

/-- A reply to a coroutine: `get_result`, and the loop up to the next
request. -/
def reply (s : State) (conn : ℕ) (attrs : List (String × Bytes)) (calls : List Call) : State :=
  if attrs = [] then
    let s := endOfSearch { s with finished := Function.update s.finished conn true } conn
    -- only the finished callback can make calls here
    if s.connections = [] then calls.foldl (call body) s else s
  else
    let s := { s with log := s.log ++ [.object conn (Dict.empty.setAll attrs)] }
    (calls.foldl (call body) s).handleObjects body conn

/-- One step of the event loop; a reply needs a coroutine that waits for it. -/
def step (s : State) : Event → Option State
  | .call c => some (s.call body c)
  | .reply conn attrs calls =>
    if 0 < s.handlers conn then some ((s.wake conn).reply body conn attrs calls) else none
  | .connectionFailure conn =>
    if 0 < s.handlers conn then
      some { s.wake conn with failed := Function.update s.failed conn true }
    else none
  | .rpcError conn =>
    if 0 < s.handlers conn then
      some { s.wake conn with failed := Function.update s.failed conn true }
    else none

end Program

/-! ## One place for each connection -/

/-- The connection has neither finished nor failed. -/
def live (conns : List ℕ) (s : State) (conn : ℕ) : Bool :=
  decide (conn ∈ conns) && !s.finished conn && !s.failed conn

/-- What the object callback was told, and the finished callback at the end. -/
def Logged (conns : List ℕ) (s : State) : Prop :=
  ∃ objs : List (ℕ × Dict String Bytes), s.log = objs.map (fun obj => .object obj.1 obj.2) ++
    if conns ≠ [] ∧ s.connections = [] then [.finished] else []

/-- A live connection is in `_blocking`, or has a coroutine that waits, or is
in hand. -/
structure Inv (conns inHand : List ℕ) (s : State) : Prop where
  /-- One place for each live connection, and none for another one. -/
  placed : ∀ c, s.blocking.count c + s.handlers c + inHand.count c =
    (live conns s c).toNat
  /-- The connections that have not finished. -/
  unfinished : ∀ c, c ∈ s.connections ↔ c ∈ conns ∧ s.finished c = false
  /-- The log. -/
  logged : s.Logged conns

/-- At the start every connection is idle: nothing was started, and no reply is in hand. -/
theorem inv_init (conns : List ℕ) : Inv conns [] (init conns) where
  placed c := by
    by_cases hc : c ∈ conns <;> simp [init, live, hc, List.count_dedup]
  unfinished c := by simp [init]
  logged := by
    refine ⟨[], ?_⟩
    by_cases hc : conns = [] <;> simp [init, hc]

variable {body : Body} {conns inHand : List ℕ} {s : State} {c : ℕ}

/-- A connection is live while it has neither ended nor failed. -/
theorem live_iff : live conns s c = true ↔
    c ∈ conns ∧ s.finished c = false ∧ s.failed c = false := by
  simp [live, and_assoc]

/-- A connection in hand is live and in no other place. -/
theorem Inv.inHand_cons (h : Inv conns (c :: inHand) s) :
    live conns s c = true ∧ s.blocking.count c = 0 ∧ s.handlers c = 0 ∧ inHand.count c = 0 := by
  have hplaced := h.placed c
  rw [List.count_cons_self] at hplaced
  cases hlive : live conns s c with
  | false =>
    rw [hlive, Bool.toNat_false] at hplaced
    omega
  | true =>
    rw [hlive, Bool.toNat_true] at hplaced
    exact ⟨rfl, by omega⟩

/-- The coroutine of a connection in hand waits for a reply, or leaves the
connection in `_blocking`. -/
theorem Inv.handleObjects (hbody : body.addable = true) (h : Inv conns (c :: inHand) s) :
    Inv conns inHand (s.handleObjects body c) := by
  obtain ⟨hlive, hblocking, hhandlers, hhand⟩ := h.inHand_cons
  have hnot : c ∉ s.blocking := List.count_eq_zero.mp hblocking
  obtain ⟨_, hfinished, _⟩ := live_iff.mp hlive
  unfold State.handleObjects
  split
  · refine ⟨fun d => ?_, h.unfinished, h.logged⟩
    have hplaced := h.placed d
    change (s.blocking.insert c).count d + s.handlers d + inHand.count d = (live conns s d).toNat
    rw [List.insert_of_not_mem hnot, List.count_cons]
    rw [List.count_cons] at hplaced
    omega
  · simp only [hfinished, Bool.false_eq_true, if_false]
    refine ⟨fun d => ?_, h.unfinished, h.logged⟩
    have hplaced := h.placed d
    change s.blocking.count d + Function.update s.handlers c (s.handlers c + 1) d +
      inHand.count d = (live conns s d).toNat
    rw [List.count_cons] at hplaced
    rcases eq_or_ne d c with rfl | hne
    · rw [Function.update_self]
      simp only [beq_self_eq_true, if_true] at hplaced
      omega
    · rw [Function.update_of_ne hne]
      simp only [beq_iff_eq, hne.symm, if_false] at hplaced
      exact hplaced

/-- Asking some connections for an object gives each of them a request of its own, and leaves none
in hand twice. -/
theorem Inv.foldl_handleObjects (hbody : body.addable = true) {restart : List ℕ}
    (h : Inv conns (restart ++ inHand) s) :
    Inv conns inHand (restart.foldl (State.handleObjects body) s) := by
  induction restart generalizing s with
  | nil => exact h
  | cons c rest ih => exact ih (Inv.handleObjects hbody h)

/-- Every connection in `_blocking` gets its coroutine. -/
theorem Inv.tryStart (hbody : body.addable = true) (h : Inv conns inHand s) :
    Inv conns inHand (s.tryStart body) := by
  unfold State.tryStart
  split
  · refine Inv.foldl_handleObjects hbody ⟨fun d => ?_, h.unfinished, h.logged⟩
    have hplaced := h.placed d
    change 0 + s.handlers d + (s.blocking ++ inHand).count d = (live conns s d).toNat
    rw [List.count_append]
    omega
  · exact h

/-- A call of the client keeps the account of who waits for a reply. -/
theorem Inv.call (hbody : body.addable = true) (h : Inv conns inHand s) (k : Call) :
    Inv conns inHand (s.call body k) := by
  cases k with
  | start =>
    simp only [State.call]
    split
    · exact h
    · exact Inv.tryStart hbody ⟨h.placed, h.unfinished, h.logged⟩
  | pause => exact ⟨h.placed, h.unfinished, h.logged⟩
  | resume => exact Inv.tryStart hbody ⟨h.placed, h.unfinished, h.logged⟩

/-- So does any number of calls, such as those that a callback makes while a reply is handled. -/
theorem Inv.calls (hbody : body.addable = true) (h : Inv conns inHand s) (calls : List Call) :
    Inv conns inHand (calls.foldl (State.call body) s) := by
  induction calls generalizing s with
  | nil => exact h
  | cons k rest ih => exact ih (h.call hbody k)

/-- A coroutine that gets its reply has the connection in hand. -/
theorem Inv.wake (h : Inv conns [] s) (hwaiting : 0 < s.handlers c) :
    Inv conns [c] (s.wake c) := by
  refine ⟨fun d => ?_, h.unfinished, h.logged⟩
  have hplaced := h.placed d
  change s.blocking.count d + Function.update s.handlers c (s.handlers c - 1) d +
    [c].count d = (live conns s d).toNat
  rw [List.count_singleton]
  rcases eq_or_ne d c with rfl | hne
  · rw [Function.update_self]
    simp only [beq_self_eq_true, if_true, List.count_nil] at hplaced ⊢
    omega
  · rw [Function.update_of_ne hne]
    simp only [beq_iff_eq, hne.symm, if_false, List.count_nil] at hplaced ⊢
    exact hplaced

/-- The end of one connection does not end another one. -/
theorem live_of_ne {finished failed : ℕ → Bool} {d : ℕ} (hne : d ≠ c)
    (hfinished : ∀ d ≠ c, finished d = s.finished d) (hfailed : ∀ d ≠ c, failed d = s.failed d) :
    live conns { s with finished, failed } d = live conns s d := by
  simp only [live, hfinished d hne, hfailed d hne]

/-- A connection that fails is in hand no more, and needs no further request. -/
theorem Inv.failed (h : Inv conns [c] s) :
    Inv conns [] { s with failed := Function.update s.failed c true } := by
  obtain ⟨_, hblocking, hhandlers, _⟩ := h.inHand_cons
  refine ⟨fun d => ?_, h.unfinished, h.logged⟩
  have hplaced := h.placed d
  rw [List.count_singleton] at hplaced
  rcases eq_or_ne d c with rfl | hne
  · simp [hblocking, hhandlers, live]
  · rw [live_of_ne hne (fun _ _ => rfl) fun e he => Function.update_of_ne he _ _]
    simp only [beq_iff_eq, hne.symm, if_false] at hplaced
    exact hplaced

/-- While a connection has not finished, only objects were passed on. -/
theorem Inv.log_eq (h : Inv conns (c :: inHand) s) :
    s.connections ≠ [] ∧
      ∃ objs : List (ℕ × Dict String Bytes), s.log = objs.map fun obj => .object obj.1 obj.2 := by
  obtain ⟨hlive, _⟩ := h.inHand_cons
  obtain ⟨hmem, hfinished, _⟩ := live_iff.mp hlive
  have hopen := List.ne_nil_of_mem ((h.unfinished c).mpr ⟨hmem, hfinished⟩)
  obtain ⟨objs, hlog⟩ := h.logged
  refine ⟨hopen, objs, ?_⟩
  rw [hlog, if_neg fun hdone => hopen hdone.2, List.append_nil]

/-- Handing an object on only lengthens the log. -/
theorem Inv.object (h : Inv conns (c :: inHand) s) (obj : Dict String Bytes) :
    Inv conns (c :: inHand) { s with log := s.log ++ [.object c obj] } := by
  obtain ⟨hopen, objs, hlog⟩ := h.log_eq
  refine ⟨h.placed, h.unfinished, objs ++ [(c, obj)], ?_⟩
  rw [if_neg fun hdone => hopen hdone.2, List.append_nil, List.map_append, hlog]
  rfl

/-- The end of a connection takes it out of the hand, and the end of the last one is reported
once. -/
theorem Inv.endOfSearch (h : Inv conns [c] s) :
    Inv conns [] (endOfSearch { s with finished := Function.update s.finished c true } c) := by
  obtain ⟨hlive, hblocking, hhandlers, _⟩ := h.inHand_cons
  obtain ⟨hmem, _, _⟩ := live_iff.mp hlive
  obtain ⟨hopen, objs, hlog⟩ := h.log_eq
  have hconns : conns ≠ [] := List.ne_nil_of_mem hmem
  refine ⟨fun d => ?_, fun d => ?_, objs, ?_⟩
  · have hplaced := h.placed d
    rw [List.count_singleton] at hplaced
    change (s.blocking.filter (· ≠ c)).count d + s.handlers d + 0 =
      (live conns { s with finished := Function.update s.finished c true } d).toNat
    rcases eq_or_ne d c with rfl | hne
    · have hnone : (s.blocking.filter (· ≠ d)).count d = 0 := by simp [List.count_eq_zero]
      simp only [hnone, hhandlers, live, Function.update_self, Bool.not_true, Bool.and_false,
        Bool.false_and, Bool.toNat_false]
    · have hcount : (s.blocking.filter (· ≠ c)).count d = s.blocking.count d :=
        List.count_filter (by simpa using hne)
      rw [live_of_ne hne (fun e he => Function.update_of_ne he _ _) fun _ _ => rfl, hcount]
      simp only [beq_iff_eq, hne.symm, if_false] at hplaced
      exact hplaced
  · have hunfinished := h.unfinished d
    simp only [State.endOfSearch, List.mem_filter, Function.update_apply, decide_eq_true_eq]
    by_cases hd : d = c
    · simp [hd]
    · simp [hd, hunfinished]
  · simp only [State.endOfSearch, hlog]
    split
    · rw [if_pos ⟨hconns, ‹_›⟩]
    · rw [if_neg fun hdone => ‹¬_› hdone.2, List.append_nil]

/-- A reply takes its connection into the hand, and lets go of it with the next request or with its
end, whatever the callbacks call in between. -/
theorem Inv.reply (hbody : body.addable = true) (h : Inv conns [c] s)
    (attrs : List (String × Bytes)) (calls : List Call) :
    Inv conns [] (s.reply body c attrs calls) := by
  unfold State.reply
  split
  · dsimp only
    split
    · exact h.endOfSearch.calls hbody calls
    · exact h.endOfSearch
  · exact ((h.object _).calls hbody calls).handleObjects hbody

/-- A step is a call, a reply to a coroutine that waits, or the failure of its connection. -/
theorem step_cases {s t : State} {event : Event} (h : s.step body event = some t) :
    (∃ k, event = .call k ∧ t = s.call body k) ∨
    (∃ conn attrs calls, event = .reply conn attrs calls ∧ 0 < s.handlers conn ∧
      t = (s.wake conn).reply body conn attrs calls) ∨
    ∃ conn, (event = .connectionFailure conn ∨ event = .rpcError conn) ∧ 0 < s.handlers conn ∧
      t = { s.wake conn with failed := Function.update s.failed conn true } := by
  cases event with
  | call k =>
    cases h
    exact Or.inl ⟨k, rfl, rfl⟩
  | reply conn attrs calls =>
    rw [State.step, Option.ite_none_right_eq_some, Option.some.injEq] at h
    exact Or.inr (Or.inl ⟨conn, attrs, calls, rfl, h.1, h.2.symm⟩)
  | connectionFailure conn =>
    rw [State.step, Option.ite_none_right_eq_some, Option.some.injEq] at h
    exact Or.inr (Or.inr ⟨conn, Or.inl rfl, h.1, h.2.symm⟩)
  | rpcError conn =>
    rw [State.step, Option.ite_none_right_eq_some, Option.some.injEq] at h
    exact Or.inr (Or.inr ⟨conn, Or.inr rfl, h.1, h.2.symm⟩)

/-- Every event keeps the account, where a request without a body could be packed. -/
theorem Inv.step (hbody : body.addable = true) (h : Inv conns [] s) {event : Event} {t : State}
    (hstep : s.step body event = some t) : Inv conns [] t := by
  rcases step_cases hstep with ⟨k, -, rfl⟩ | ⟨conn, attrs, calls, -, hwaiting, rfl⟩ |
    ⟨conn, -, hwaiting, rfl⟩
  · exact h.call hbody k
  · exact (h.wake hwaiting).reply hbody attrs calls
  · exact (h.wake hwaiting).failed

end State

/-! ## Results and reports -/

/-- The results that arrive with an event. -/
def Event.results : Event → List (ℕ × Dict String Bytes)
  | .reply conn attrs _ => if attrs = [] then [] else [(conn, Dict.empty.setAll attrs)]
  | _ => []

/-- The event is the end of the search of a connection. -/
def Event.Ends (conn : ℕ) : Event → Prop
  | .reply c attrs _ => c = conn ∧ attrs = []
  | _ => False

/-- The objects passed on. -/
def objects (log : List Output) : List (ℕ × Dict String Bytes) :=
  log.filterMap fun
    | .object conn obj => some (conn, obj)
    | .finished => none

namespace State

variable {body : Body}

/-- What neither callback nor flag of a connection depends on. -/
structure SameReports (s t : State) : Prop where
  /-- The objects passed on. -/
  objects : objects t.log = objects s.log
  /-- The connections that have finished. -/
  finished : t.finished = s.finished

/-- Without a step the reports are the same. -/
theorem SameReports.refl (s : State) : SameReports s s := ⟨rfl, rfl⟩

/-- Two steps without a report are one without. -/
theorem SameReports.trans {s t u : State} (h : SameReports s t) (h' : SameReports t u) :
    SameReports s u := ⟨h'.objects.trans h.objects, h'.finished.trans h.finished⟩

/-- The end of the search reports no object, and ends no further connection. -/
theorem sameReports_endOfSearch (s : State) (conn : ℕ) :
    SameReports s (s.endOfSearch conn) := by
  refine ⟨?_, rfl⟩
  simp only [endOfSearch]
  split <;> simp [BlasterSearch.objects]

/-- Asking for an object reports none. -/
theorem sameReports_handleObjects (s : State) (conn : ℕ) :
    SameReports s (s.handleObjects body conn) := by
  unfold handleObjects
  split
  · exact ⟨rfl, rfl⟩
  · split
    · exact sameReports_endOfSearch s conn
    · split <;> exact ⟨rfl, rfl⟩

/-- The start reports no object. -/
theorem sameReports_tryStart (s : State) : SameReports s (s.tryStart body) := by
  have hfold : ∀ (restart : List ℕ) (t : State), SameReports s t →
      SameReports s (restart.foldl (handleObjects body) t) := by
    intro restart
    induction restart with
    | nil => exact fun _ h => h
    | cons conn rest ih => exact fun t h => ih _ (h.trans (sameReports_handleObjects t conn))
  unfold tryStart
  split
  · exact hfold _ _ ⟨rfl, rfl⟩
  · exact .refl s

/-- No call of the client reports an object; only replies do. -/
theorem sameReports_call (s : State) (k : Call) : SameReports s (s.call body k) := by
  cases k with
  | start =>
    simp only [State.call]
    split
    · exact .refl s
    · exact SameReports.trans (t := { s with started := true }) ⟨rfl, rfl⟩ (sameReports_tryStart _)
  | pause => exact ⟨rfl, rfl⟩
  | resume =>
    exact SameReports.trans (t := { s with paused := false }) ⟨rfl, rfl⟩ (sameReports_tryStart _)

/-- Nor does any number of calls. -/
theorem sameReports_calls (s : State) (calls : List Call) :
    SameReports s (calls.foldl (State.call body) s) := by
  induction calls generalizing s with
  | nil => exact .refl s
  | cons k rest ih => exact (sameReports_call s k).trans (ih (s.call body k))

/-- A reply reports the object that it brings, and an empty one ends its connection. -/
theorem reply_reports (s : State) (conn : ℕ) (attrs : List (String × Bytes)) (calls : List Call) :
    BlasterSearch.objects (s.reply body conn attrs calls).log =
        BlasterSearch.objects s.log ++ (Event.reply conn attrs calls).results ∧
      (s.reply body conn attrs calls).finished =
        if attrs = [] then Function.update s.finished conn true else s.finished := by
  by_cases hattrs : attrs = []
  · have hend := sameReports_endOfSearch { s with finished := Function.update s.finished conn true }
      conn
    simp only [State.reply, Event.results, hattrs, if_true, List.append_nil]
    split
    · have hcalls := hend.trans (@sameReports_calls body _ calls)
      exact ⟨hcalls.objects, hcalls.finished⟩
    · exact ⟨hend.objects, hend.finished⟩
  · have hcalls := (@sameReports_calls body
      { s with log := s.log ++ [.object conn (Dict.empty.setAll attrs)] } calls).trans
        (@sameReports_handleObjects body _ conn)
    simp only [State.reply, Event.results, hattrs, if_false]
    refine ⟨hcalls.objects.trans ?_, hcalls.finished⟩
    simp [BlasterSearch.objects]

/-- A step passes on the results that arrive with it, and records the ends of searches that it
brings. -/
theorem step_reports {s t : State} {event : Event} (h : s.step body event = some t) :
    BlasterSearch.objects t.log = BlasterSearch.objects s.log ++ event.results ∧
      ∀ c, t.finished c = true → s.finished c = true ∨ event.Ends c := by
  rcases step_cases h with ⟨k, rfl, rfl⟩ | ⟨conn, attrs, calls, rfl, -, rfl⟩ |
    ⟨conn, hevent, -, rfl⟩
  · have hcall := @sameReports_call body s k
    refine ⟨hcall.objects.trans (List.append_nil _).symm, fun c hc => Or.inl ?_⟩
    rwa [hcall.finished] at hc
  · obtain ⟨hobjects, hfinished⟩ := (s.wake conn).reply_reports conn attrs calls
    refine ⟨hobjects, fun c hc => ?_⟩
    rw [hfinished] at hc
    split at hc
    · rcases eq_or_ne c conn with rfl | hne
      · exact Or.inr ⟨rfl, ‹_›⟩
      · rw [Function.update_of_ne hne] at hc
        exact Or.inl hc
    · exact Or.inl hc
  · -- a connection that fails reports nothing
    have hresults : event.results = [] := by rcases hevent with rfl | rfl <;> rfl
    rw [hresults, List.append_nil]
    exact ⟨rfl, fun c hc => Or.inl hc⟩

/-- The results of a run were passed on once each and in order, by induction over its events. -/
theorem exec_objects {s t : State} {events : List Event} (hrun : exec (step body) s events = some t) :
    BlasterSearch.objects t.log = BlasterSearch.objects s.log ++ events.flatMap Event.results :=
  exec_flatMap (fun s : State => BlasterSearch.objects s.log) Event.results
    (fun _ _ _ h => (step_reports h).1) hrun

/-- A connection that has finished reported the end of its search in some event of the run. -/
theorem exec_finished {s : State} {conns : List ℕ} {events : List Event}
    (hrun : exec (step body) (init conns) events = some s) {c : ℕ} (hc : s.finished c = true) :
    ∃ event ∈ events, event.Ends c := by
  have hstep : ∀ event ∈ events, ∀ s t : State, (s.finished c = true → ∃ event ∈ events, event.Ends c) →
      s.step body event = some t → t.finished c = true → ∃ event ∈ events, event.Ends c := by
    intro event hmem s t hs ht hc
    rcases (step_reports ht).2 c hc with hc | hends
    · exact hs hc
    · exact ⟨event, hmem, hends⟩
  exact exec_invariant_of_mem hstep (fun h => by cases h) hrun hc

/-- After any events the account is right: every live connection is asked for an object, paused or
in hand, and no one twice. -/
theorem exec_inv (hbody : body.addable = true) {s : State} {conns : List ℕ} {events : List Event}
    (hrun : exec (step body) (init conns) events = some s) : Inv conns [] s :=
  exec_invariant (fun _ _ _ h hstep => h.step hbody hstep) (inv_init conns) hrun

/-- A live connection is in `_blocking` without a coroutine, or has one and is
not there. -/
theorem Inv.one_place {conns : List ℕ} {s : State} (h : Inv conns [] s) {c : ℕ}
    (hlive : live conns s c = true) :
    (c ∈ s.blocking ∧ s.handlers c = 0) ∨ (c ∉ s.blocking ∧ s.handlers c = 1) := by
  have hplaced := h.placed c
  rw [hlive, List.count_nil, Bool.toNat_true] at hplaced
  by_cases hmem : c ∈ s.blocking
  · have hpos := List.count_pos_iff.mpr hmem
    exact Or.inl ⟨hmem, by omega⟩
  · rw [List.count_eq_zero.mpr hmem] at hplaced
    exact Or.inr ⟨hmem, by omega⟩

end State

/-- An entry that occurs once, at the end. -/
theorem split_at_end {before after log : List Output} (hlog : .finished ∉ log)
    (h : before ++ .finished :: after = log ++ [.finished]) : before = log ∧ after = [] := by
  rcases List.eq_nil_or_concat after with rfl | ⟨front, last, rfl⟩
  · exact ⟨(List.append_inj' h rfl).1, rfl⟩
  · rw [List.concat_eq_append, ← List.cons_append, ← List.append_assoc] at h
    refine absurd ?_ hlog
    rw [← (List.append_inj' h rfl).1]
    simp

/-- What is asked of a run: each connection that has neither finished nor failed is in
`_blocking` or has exactly one coroutine, the results that arrived were passed on
once each and in order, and the finished callback ran at most once, as the last
callback, when every connection had reported the end of its search. -/
structure Kept (conns : List ℕ) (events : List Event) (s : State) : Prop where
  /-- One place. -/
  placed : ∀ c ∈ conns, s.finished c = false → s.failed c = false →
    (c ∈ s.blocking ∧ s.handlers c = 0) ∨ (c ∉ s.blocking ∧ s.handlers c = 1)
  /-- Every result once. -/
  passed : objects s.log = events.flatMap Event.results
  /-- The end once, and last. -/
  ended : ∀ before after, s.log = before ++ .finished :: after →
    .finished ∉ before ∧ after = [] ∧ ∀ c ∈ conns, ∃ event ∈ events, event.Ends c

/-- With a body that can be sent, every run keeps one request for each connection. This is what the
source would do if the message could be put together. -/
theorem kept_of_addable {body : Body} (hbody : body.addable = true) {conns : List ℕ}
    {events : List Event} {s : State}
    (hrun : exec (State.step body) (State.init conns) events = some s) : Kept conns events s := by
  have hinv := State.exec_inv hbody hrun
  refine ⟨fun c hc hfinished hfailed => ?_, ?_, fun before after hlog => ?_⟩
  · exact hinv.one_place (State.live_iff.mpr ⟨hc, hfinished, hfailed⟩)
  · rw [State.exec_objects hrun]
    rfl
  · obtain ⟨objs, hobjs⟩ := hinv.logged
    have hmap : Output.finished ∉ objs.map fun obj => Output.object obj.1 obj.2 := by simp
    split at hobjs
    · rename_i hdone
      rw [hlog] at hobjs
      obtain ⟨rfl, rfl⟩ := split_at_end hmap hobjs
      refine ⟨hmap, rfl, fun c hc => State.exec_finished hrun ?_⟩
      by_contra hopen
      have hmem := (hinv.unfinished c).mpr ⟨hc, Bool.not_eq_true _ ▸ hopen⟩
      rw [hdone.2] at hmem
      cases hmem
    · rw [hlog, List.append_nil] at hobjs
      rw [← hobjs] at hmap
      simp at hmap

/-- The callbacks of two connections pause and resume the set, and both
searches end. -/
def flippedTwice : List Event :=
  [.call .start, .reply 0 [("name", [1])] [.pause], .reply 1 [("name", [2])] [.resume, .pause],
    .call .resume, .call .resume, .reply 1 [] [], .reply 0 [] [.resume]]

/-- With a body of bytes this is a run, and all three callbacks are made. -/
example : (exec (State.step (.bytes [])) (State.init [0, 1]) flippedTwice).map State.log =
    some [.object 0 (Dict.empty.setAll [("name", [1])]),
      .object 1 (Dict.empty.setAll [("name", [2])]), .finished] := rfl

/-! ## The body of the source -/

namespace State

/-- The step restarts the coroutine of a connection, which makes a request. -/
def requests (s : State) : Event → Bool
  | .call .start => !s.started && !s.paused && s.blocking ≠ []
  | .call .resume => s.started && s.blocking ≠ []
  | .call .pause => false
  | .reply _ attrs _ => attrs ≠ [] && !s.paused
  | .connectionFailure _ => false
  | .rpcError _ => false

/-- No coroutine waits, nothing was passed on, and the connections wait for a first
request or have been left without one. -/
structure Silent (conns : List ℕ) (s : State) : Prop where
  /-- No coroutine. -/
  handlers : ∀ c, s.handlers c = 0
  /-- No connection has finished. -/
  finished : ∀ c, s.finished c = false
  /-- None has failed. -/
  failed : ∀ c, s.failed c = false
  /-- No callback. -/
  log : s.log = []
  /-- All connections, or none. -/
  blocking : s.blocking = conns.dedup ∨ s.blocking = []

/-- At the start nothing was sent to any connection. -/
theorem silent_init (conns : List ℕ) : Silent conns (init conns) :=
  ⟨fun _ => rfl, fun _ => rfl, fun _ => rfl, rfl, Or.inl rfl⟩

variable {conns : List ℕ} {s : State} {c : ℕ}

/-- A request that cannot be written leaves nothing behind. -/
theorem foldl_handleObjects_defaultBody (restart : List ℕ) (hpaused : s.paused = false)
    (hfinished : ∀ c, s.finished c = false) :
    restart.foldl (handleObjects ReplyMatching.defaultBody) s = s := by
  have hone : ∀ c, s.handleObjects ReplyMatching.defaultBody c = s := by
    intro c
    have hbody : ReplyMatching.defaultBody.addable = false := rfl
    rw [handleObjects, hpaused, hfinished, hbody]
    rfl
  induction restart with
  | nil => rfl
  | cons c rest ih => rw [List.foldl_cons, hone, ih]

/-- A restart leaves the connections that it takes without a coroutine. -/
theorem Silent.tryStart (h : Silent conns s) :
    Silent conns (s.tryStart ReplyMatching.defaultBody) ∧
      (s.tryStart ReplyMatching.defaultBody).blocking =
        if s.started && !s.paused then [] else s.blocking := by
  unfold State.tryStart
  by_cases hgo : (s.started && !s.paused) = true
  · have hpaused : s.paused = false := by
      rw [Bool.and_eq_true, Bool.not_eq_true'] at hgo
      exact hgo.2
    have hfold := @foldl_handleObjects_defaultBody { s with blocking := [] } s.blocking hpaused
      h.finished
    rw [if_pos hgo, if_pos hgo, hfold]
    exact ⟨⟨h.handlers, h.finished, h.failed, h.log, Or.inr rfl⟩, rfl⟩
  · rw [if_neg hgo, if_neg hgo]
    exact ⟨h, rfl⟩

/-- A step keeps the silence; it leaves the connections where they are unless it makes a
request. -/
theorem Silent.step (h : Silent conns s) {event : Event} {t : State}
    (hstep : s.step ReplyMatching.defaultBody event = some t) :
    Silent conns t ∧ event.results = [] ∧
      t.blocking = if s.requests event then [] else s.blocking := by
  have hidle : ∀ c, ¬ 0 < s.handlers c := fun c => by rw [h.handlers c]; exact lt_irrefl 0
  rcases step_cases hstep with ⟨k, rfl, rfl⟩ | ⟨conn, _, _, -, hwaiting, -⟩ | ⟨conn, -, hwaiting, -⟩
  · cases k with
    | start =>
      rw [State.call]
      by_cases hstarted : s.started = true
      · rw [if_pos hstarted, requests, hstarted]
        exact ⟨h, rfl, rfl⟩
      · have hready : Silent conns { s with started := true } :=
          ⟨h.handlers, h.finished, h.failed, h.log, h.blocking⟩
        obtain ⟨hsilent, hblocking⟩ := hready.tryStart
        rw [if_neg hstarted]
        refine ⟨hsilent, rfl, hblocking.trans ?_⟩
        cases hpaused : s.paused <;> by_cases hnone : s.blocking = [] <;>
          simp [requests, hstarted, hpaused, hnone]
    | pause => exact ⟨⟨h.handlers, h.finished, h.failed, h.log, h.blocking⟩, rfl, rfl⟩
    | resume =>
      have hready : Silent conns { s with paused := false } :=
        ⟨h.handlers, h.finished, h.failed, h.log, h.blocking⟩
      obtain ⟨hsilent, hblocking⟩ := hready.tryStart
      refine ⟨hsilent, rfl, hblocking.trans ?_⟩
      cases hstarted : s.started <;> by_cases hnone : s.blocking = [] <;>
        simp [requests, hstarted, hnone]
  · exact absurd hwaiting (hidle conn)
  · exact absurd hwaiting (hidle conn)

/-- Every run is silent, and nothing arrives. -/
theorem silent_exec {events : List Event}
    (hrun : exec (step ReplyMatching.defaultBody) (init conns) events = some s) :
    Silent conns s ∧ events.flatMap Event.results = [] := by
  have hsilent : Silent conns s :=
    exec_invariant (fun _ _ _ h hstep => (h.step hstep).1) (silent_init conns) hrun
  refine ⟨hsilent, ?_⟩
  have hobjects := exec_objects hrun
  rw [hsilent.log] at hobjects
  exact hobjects.symm

/-- A silent state has what is asked for exactly when no connection was left without a
coroutine. -/
theorem Silent.kept_iff (h : Silent conns s) {events : List Event}
    (hresults : events.flatMap Event.results = []) :
    Kept conns events s ↔ s.blocking = conns.dedup := by
  constructor
  · intro hkept
    rcases h.blocking with hall | hnone
    · exact hall
    · -- a connection that was left would have no place
      have hconns : conns = [] := by
        refine List.eq_nil_iff_forall_not_mem.mpr fun c hc => ?_
        rcases hkept.placed c hc (h.finished c) (h.failed c) with ⟨hmem, -⟩ | ⟨-, hone⟩
        · rw [hnone] at hmem
          cases hmem
        · rw [h.handlers c] at hone
          cases hone
      rw [hnone, hconns]
      rfl
  · intro hall
    refine ⟨fun c hc _ _ => Or.inl ⟨?_, h.handlers c⟩, ?_, fun before after hlog => ?_⟩
    · rw [hall]
      exact List.mem_dedup.mpr hc
    · rw [h.log, hresults]
      rfl
    · rw [h.log] at hlog
      exact absurd hlog.symm (List.append_ne_nil_of_right_ne_nil _ (List.cons_ne_nil _ _))

end State

/-- The message of a request without a body cannot be put together, as the source adds a text to the
bytes of its header. So a run keeps one request for each connection exactly as long as it makes
none. -/
theorem one_request_each_iff {conns : List ℕ} {events : List Event} {s : State}
    (hrun : exec (State.step ReplyMatching.defaultBody) (State.init conns) events = some s) :
    (∀ before after t, events = before ++ after →
        exec (State.step ReplyMatching.defaultBody) (State.init conns) before = some t →
          Kept conns before t) ↔
      Guarded (State.step ReplyMatching.defaultBody) (fun t event => t.requests event = false)
        (State.init conns) events := by
  constructor
  · intro hkept
    refine guarded_of_beginnings hrun fun before event after t heq ht => ?_
    obtain ⟨hsilent, hresults⟩ := State.silent_exec ht
    have hall := (hsilent.kept_iff hresults).mp (hkept before (event :: after) t heq ht)
    -- the state after the step
    rw [heq] at hrun
    obtain ⟨t', ht', hrest⟩ := exec_append_eq_some.mp hrun
    cases ht.symm.trans ht'
    obtain ⟨u, hu, -⟩ := exec_cons_eq_some.mp hrest
    have hbefore : exec (State.step ReplyMatching.defaultBody) (State.init conns)
        (before ++ [event]) = some u := exec_append_eq_some.mpr ⟨t, ht, by rw [exec_cons hu]; rfl⟩
    obtain ⟨hsilent', hresults'⟩ := State.silent_exec hbefore
    have hall' := (hsilent'.kept_iff hresults').mp
      (hkept (before ++ [event]) after u (by rw [heq, List.append_assoc]; rfl) hbefore)
    obtain ⟨-, -, hblocking⟩ := hsilent.step hu
    by_contra hrequests
    rw [Bool.not_eq_false] at hrequests
    rw [if_pos hrequests, hall'] at hblocking
    have hnone : t.blocking = [] := hall.trans hblocking
    rcases State.step_cases hu with ⟨k, rfl, -⟩ | ⟨conn, _, _, -, hwaiting, -⟩ |
      ⟨conn, -, hwaiting, -⟩
    · cases k <;> simp [State.requests, hnone] at hrequests
    · rw [hsilent.handlers conn] at hwaiting
      exact absurd hwaiting (lt_irrefl 0)
    · rw [hsilent.handlers conn] at hwaiting
      exact absurd hwaiting (lt_irrefl 0)
  · intro hguarded before after t heq ht
    rw [heq] at hguarded
    obtain ⟨hsilent, hresults⟩ := State.silent_exec ht
    have hall : State.Silent conns t ∧ t.blocking = conns.dedup := by
      refine exec_invariant_of_guarded
        (I := fun u => State.Silent conns u ∧ u.blocking = conns.dedup)
        (fun u event v hu hguard hstep => ?_) ⟨State.silent_init conns, rfl⟩
        (hguarded.append ht).1 ht
      obtain ⟨hsilent', -, hblocking⟩ := hu.1.step hstep
      rw [hguard, if_neg Bool.false_ne_true] at hblocking
      exact ⟨hsilent', hblocking.trans hu.2⟩
    exact (hsilent.kept_iff hresults).mpr hall.2

/-- The set is paused before it is started, and paused again before its connections could ask for
objects. -/
theorem one_request_each_paused :
    Kept [0, 1] [.call .pause, .call .start, .call .pause]
      ⟨[0, 1], [0, 1], true, true, fun _ => 0, fun _ => false, fun _ => false, []⟩ := by
  have hrun : exec (State.step ReplyMatching.defaultBody) (State.init [0, 1])
      [.call .pause, .call .start, .call .pause] =
        some ⟨[0, 1], [0, 1], true, true, fun _ => 0, fun _ => false, fun _ => false, []⟩ := rfl
  have hguarded : Guarded (State.step ReplyMatching.defaultBody)
      (fun t event => t.requests event = false) (State.init [0, 1])
      [.call .pause, .call .start, .call .pause] :=
    guarded_cons rfl rfl (guarded_cons rfl rfl (guarded_cons rfl rfl trivial))
  exact (one_request_each_iff hrun).mpr hguarded _ [] _ rfl hrun

/-- Two connections are started, and neither waits in `_blocking` or has a coroutine: the exception
of the first request is raised before either is noted. -/
theorem start_forgets_connections :
    ∃ s, exec (State.step ReplyMatching.defaultBody) (State.init [0, 1]) [.call .start] = some s ∧
      ¬ Kept [0, 1] [.call .start] s := by
  refine ⟨_, rfl, fun hkept => ?_⟩
  rcases hkept.placed 0 List.mem_cons_self rfl rfl with ⟨hmem, -⟩ | ⟨-, hone⟩
  · cases hmem
  · cases hone

end OpenDiamond.BlasterSearch
