import Mathlib.Data.Finset.Basic
import OpenDiamond.DiamondObject
import OpenDiamond.Lib.Binary64
import OpenDiamond.Lib.Traversal

/-!
# The filter protocol and the command loop of `_FilterRunner.evaluate`

A filter is the tree of the commands it emits and of what it does with each
reply. It never waits for an acknowledgement: after a result it goes on with
its next object. The server side is the command loop, one branch for each
tag, with the reply, the record kept in the result and the way each branch
leaves the loop. An item is what the loop makes of its bytes; it is absent
where decoding or parsing them raises.
-/

namespace OpenDiamond.FilterProtocol

open Lib.OrderedDict Lib.Binary64 Lib.Traversal DiamondObject

/-- A text item after `bytes.decode`, none when the bytes are not UTF-8. -/
abbrev Text := Option String

/-- A number item after `float` or `int`, none when the text is no number. -/
abbrev Number := Option Double

/-- The messages a filter can send. -/
inductive Command where
  | initSuccess
  | getAttribute (key : Text)
  | setAttribute (key : Text) (value : Bytes)
  | omitAttribute (key : Text)
  | getSessionVariables (keys : List Text)
  | updateSessionVariables (keys : List Text) (values : List Number)
  | log (level : Option ℤ) (message : Text)
  | stdout (text : Text)
  | result (score : Number)
  | ensureResource (scope rtype : Text) (args : List Text)
  | hintLargeAttribute (size : Option ℤ)
  | unknown (tag : String)
  deriving DecidableEq

/-- What the server sends back; most commands are not answered. -/
inductive Reply where
  | nothing
  | item (value : Option Bytes)
  | boolean (value : Bool)
  | array (values : List Double)
  | dict (entries : Dict String String)

/-- A filter process from some point to the end of the object it is working
on; σ is what it remembers from one object to the next. -/
inductive Proc (σ : Type) where
  | emit (cmd : Command) (next : Reply → Proc σ)
  | finish (score : Number) (state : σ)
  | exit

/-- A filter: what a new process emits up to its first result, and what it
emits for every later object. -/
structure Program (σ : Type) where
  /-- Initialization messages, `init-success` and the first object. -/
  start : Proc σ
  /-- The commands for the next object. -/
  body : σ → Proc σ

/-- `_FilterResult`. -/
structure FilterResult where
  /-- Name to signature, or to nothing for a read of a missing attribute. -/
  inputAttrs : Dict String (Option Signature)
  /-- Name to signature of the last value written. -/
  outputAttrs : Dict String Signature
  /-- Names omitted successfully. -/
  omitAttrs : Finset String
  /-- The score, zero until a result arrives. -/
  score : Double
  /-- Whether the output values go to the attribute cache. -/
  cacheOutput : Bool

/-- The result at the start of an evaluation. -/
def FilterResult.new : FilterResult := ⟨Dict.empty, Dict.empty, ∅, .zero, false⟩

/-- What leaves `evaluate` or `_evaluate` as an exception. -/
inductive Failure where
  | dropObject
  | filterExecutionError
  | unicodeDecodeError
  | unicodeEncodeError
  | valueError
  | typeError
  | resourceError
  | objectLoadError
  deriving DecidableEq

/-- What `ensure_resource` raises: an `IOError`, as from a docker daemon that cannot be reached, or
any other exception. -/
inductive ResourceError where
  | ioError
  | other
  deriving DecidableEq

/-- The parts of the search state the loop calls: session variables and the
resource context. -/
structure Services (ε : Type) where
  /-- Total value of a session variable. -/
  filterGet : ε → String → Double
  /-- Add values into session variables. -/
  filterUpdate : ε → Dict String Double → ε
  /-- Create or find a resource, or raise. -/
  ensureResource : ε → String → List String → Except ResourceError (ε × Dict String String)

/-- The variables of the loop. -/
structure LoopState (m : Murmur) (ε : Type) where
  /-- The object being evaluated. -/
  obj : Object m
  /-- The record of this evaluation. -/
  result : FilterResult
  /-- Session variables and resources. -/
  env : ε
  /-- `_proc_initialized`. -/
  initialized : Bool

/-- How one pass through the loop body ends. -/
inductive Handled (m : Murmur) (ε : Type) where
  | reply (r : Reply) (st : LoopState m ε)
  | leave (st : LoopState m ε)
  | raise (failure : Failure)

variable {m : Murmur} {ε σ : Type}

/-- `except IOError` of `evaluate`: the filter died on an object, or before it was initialized. The
clause does not tell an error on the pipe from one that the loop body raises. -/
def onIOError (initialized : Bool) : Failure :=
  if initialized then .dropObject else .filterExecutionError

@[simp] theorem onIOError_true : onIOError true = .dropObject := rfl

@[simp] theorem onIOError_false : onIOError false = .filterExecutionError := rfl

/-- The branch of the loop for one command. -/
def handle (svc : Services ε) (st : LoopState m ε) : Command → Handled m ε
  | .initSuccess => .reply .nothing { st with initialized := true }
  | .getAttribute none => .raise .unicodeDecodeError
  | .getAttribute (some key) =>
    match st.obj.attrs.get? key with
    | some value =>
      .reply (.item (some value)) { st with
        result.inputAttrs := st.result.inputAttrs.set key (st.obj.getSignature key) }
    | none =>
      -- the failed read is recorded too, so that the result is not reused
      -- once the attribute exists
      .reply (.item none) { st with
        result.inputAttrs := st.result.inputAttrs.set key none }
  | .setAttribute none _ => .raise .unicodeDecodeError
  | .setAttribute (some key) value =>
    let obj := st.obj.setItem key value
    .reply .nothing { st with
      obj
      result.outputAttrs :=
        st.result.outputAttrs.set key (signatureOf m obj.computeSignature value) }
  | .omitAttribute none => .raise .unicodeDecodeError
  | .omitAttribute (some key) =>
    match st.obj.omitAttr key with
    | some obj =>
      .reply (.boolean true) { st with
        obj
        result.omitAttrs := insert key st.result.omitAttrs }
    | none => .reply (.boolean false) st
  | .getSessionVariables keys =>
    match keys.mapM id with
    | none => .raise .unicodeDecodeError
    | some names => .reply (.array (names.map (svc.filterGet st.env))) st
  | .updateSessionVariables keys values =>
    match keys.mapM id with
    | none => .raise .unicodeDecodeError
    | some names =>
      match values.mapM id with
      | none => .raise .filterExecutionError
      | some numbers =>
        if names.length ≠ numbers.length then .raise .filterExecutionError
        else .reply .nothing { st with
          env := svc.filterUpdate st.env (Dict.empty.setAll (names.zip numbers)) }
  | .log none _ => .raise .valueError
  | .log (some _) none => .raise .unicodeDecodeError
  -- every level goes back to the top of the loop, LOGL_TRACE by `continue`
  | .log (some _) (some _) => .reply .nothing st
  | .stdout none => .raise .unicodeDecodeError
  | .stdout (some _) => .reply .nothing st
  | .result none => .raise .valueError
  | .result (some score) => .leave { st with result.score := score }
  | .ensureResource scope rtype args =>
    match scope, rtype, args.mapM id with
    | some scope, some rtype, some args =>
      if scope = "session" then
        match svc.ensureResource st.env rtype args with
        | .ok (env, handle) => .reply (.dict handle) { st with env }
        | .error .ioError => .raise (onIOError st.initialized)
        | .error .other => .raise .resourceError
      -- the message has no conversion for its argument
      else .raise .typeError
    | _, _, _ => .raise .unicodeDecodeError
  | .hintLargeAttribute none => .raise .valueError
  | .hintLargeAttribute (some _) => .leave st
  | .unknown _ => .raise .filterExecutionError

/-- How the loop was left: by the result of the object, by the `break` after
a size hint with the filter still on the object, or by an exception. -/
inductive Ending (σ : Type) where
  | finished (state : σ)
  | broken (rest : Proc σ)
  | raised (failure : Failure)

/-- The loop variables when the loop is left, with the commands it read. -/
structure LoopReport (m : Murmur) (ε σ : Type) where
  /-- How the loop was left. -/
  ending : Ending σ
  /-- The loop variables. -/
  state : LoopState m ε
  /-- Commands taken from the pipe, in order. -/
  consumed : List Command

/-- The `while True` of `evaluate` on the commands of a filter. -/
def commandLoop (svc : Services ε) : Proc σ → LoopState m ε → LoopReport m ε σ
  | .emit cmd next, st =>
    match handle svc st cmd with
    | .reply r st' =>
      let tail := commandLoop svc (next r) st'
      { tail with consumed := cmd :: tail.consumed }
    | .leave st' => ⟨.broken (next .nothing), st', [cmd]⟩
    | .raise failure => ⟨.raised failure, st, [cmd]⟩
  | .finish none _, st => ⟨.raised .valueError, st, [.result none]⟩
  | .finish (some score) s, st =>
    ⟨.finished s, { st with result.score := score }, [.result (some score)]⟩
  | .exit, st =>
    -- end of file on the pipe
    ⟨.raised (onIOError st.initialized), st, []⟩

/-- A live filter process as the runner sees it. -/
structure Connection (σ : Type) where
  /-- What the process emits from here on. -/
  proc : Proc σ
  /-- `_proc_initialized`. -/
  initialized : Bool

/-- What a call of `evaluate` leaves behind. -/
structure EvaluateReport (m : Murmur) (ε σ : Type) where
  /-- `_proc` after the call; none once the process died or the worker ended. -/
  connection : Option (Connection σ)
  /-- The object, also when the call raised. -/
  obj : Object m
  /-- Session variables and resources. -/
  env : ε
  /-- The returned result or the exception. -/
  outcome : Except Failure FilterResult
  /-- Commands read during the call. -/
  consumed : List Command

/-- What a call leaves behind, by the way its loop was left. -/
def concluded (program : Program σ) (slow : Bool) (report : LoopReport m ε σ) :
    EvaluateReport m ε σ :=
  let result := { report.state.result with cacheOutput := slow }
  match report.ending with
  | .finished s =>
    ⟨some ⟨program.body s, report.state.initialized⟩, report.state.obj, report.state.env,
      .ok result, report.consumed⟩
  | .broken rest =>
    ⟨some ⟨rest, report.state.initialized⟩, report.state.obj, report.state.env,
      .ok result, report.consumed⟩
  | .raised failure =>
    ⟨none, report.state.obj, report.state.env, .error failure, report.consumed⟩

/-- `_FilterRunner.evaluate`: connect if there is no process, run the command
loop, decide about the attribute cache. The comparison of the throughput with
the clock is the argument `slow`. -/
def evaluate (svc : Services ε) (program : Program σ) (connection : Option (Connection σ))
    (slow : Bool) (obj : Object m) (env : ε) : EvaluateReport m ε σ :=
  let conn := connection.getD ⟨program.start, false⟩
  concluded program slow (commandLoop svc conn.proc ⟨obj, .new, env, conn.initialized⟩)

/-! ## Texts without an encoding -/

/-- An object as a filter meets it. A value that the loader left as a text
may have no encoding. `murmur` refuses such a text, so that it is only there
without signatures; the bytes beside its name in `obj` stand for nothing. -/
structure TextObject (m : Murmur) where
  /-- The object. -/
  obj : Object m
  /-- The names of the texts without an encoding. -/
  unencodable : Finset String
  /-- They are attributes of the object. -/
  held : ∀ key ∈ unencodable, obj.contains key = true
  /-- No signature is that of a text without an encoding. -/
  unsigned : unencodable.Nonempty → obj.computeSignature = false

/-- The command asks for a text that `_send_value` cannot encode. -/
def Command.refused (unencodable : Finset String) : Command → Bool
  | .getAttribute (some key) => decide (key ∈ unencodable)
  | _ => false

/-- The texts without an encoding after the command: a filter writes bytes. -/
def Command.leaves (unencodable : Finset String) : Command → Finset String
  | .setAttribute (some key) _ => unencodable.erase key
  | _ => unencodable

/-- The branch of the loop for one command, on such an object. -/
def handleText (svc : Services ε) (unencodable : Finset String) (st : LoopState m ε)
    (cmd : Command) : Handled m ε :=
  if cmd.refused unencodable then .raise .unicodeEncodeError else handle svc st cmd

/-- The `while True` of `evaluate`, on such an object. -/
def commandLoopText (svc : Services ε) :
    Proc σ → Finset String → LoopState m ε → LoopReport m ε σ
  | .emit cmd next, unencodable, st =>
    match handleText svc unencodable st cmd with
    | .reply r st' =>
      let tail := commandLoopText svc (next r) (cmd.leaves unencodable) st'
      { tail with consumed := cmd :: tail.consumed }
    | .leave st' => ⟨.broken (next .nothing), st', [cmd]⟩
    | .raise failure => ⟨.raised failure, st, [cmd]⟩
  | proc, _, st => commandLoop svc proc st

/-- `_FilterRunner.evaluate`, on such an object. -/
def evaluateText (svc : Services ε) (program : Program σ) (connection : Option (Connection σ))
    (slow : Bool) (obj : TextObject m) (env : ε) : EvaluateReport m ε σ :=
  let conn := connection.getD ⟨program.start, false⟩
  concluded program slow
    (commandLoopText svc conn.proc obj.unencodable ⟨obj.obj, .new, env, conn.initialized⟩)

/-- A command neither needs nor leaves a text where there is none. -/
theorem leaves_empty (cmd : Command) : cmd.leaves ∅ = ∅ := by
  unfold Command.leaves
  split
  · exact Finset.erase_empty _
  · rfl

/-- Where every text has an encoding, a command is handled as usual. -/
theorem handleText_empty (svc : Services ε) (st : LoopState m ε) (cmd : Command) :
    handleText svc ∅ st cmd = handle svc st cmd := by
  unfold handleText Command.refused
  split <;> simp

/-- Where every value has its bytes, the loop is that of the object. -/
theorem commandLoopText_empty (svc : Services ε) (proc : Proc σ) (st : LoopState m ε) :
    commandLoopText svc proc ∅ st = commandLoop svc proc st := by
  induction proc generalizing st with
  | emit cmd next ih =>
    simp only [commandLoopText, commandLoop, handleText_empty, leaves_empty, ih]
  | finish score s => rfl
  | exit => rfl

/-- Where every value has its bytes, so is the call. -/
theorem evaluateText_of_encoded (svc : Services ε) (program : Program σ)
    (connection : Option (Connection σ)) (slow : Bool) {obj : TextObject m}
    (h : obj.unencodable = ∅) (env : ε) :
    evaluateText svc program connection slow obj env =
      evaluate svc program connection slow obj.obj env := by
  simp only [evaluateText, evaluate, h, commandLoopText_empty]

/-! ## The protocol -/

/-- The reply is of the kind the filter library reads after the command. -/
def Command.Admits : Command → Reply → Prop
  | .getAttribute _, .item _ => True
  | .omitAttribute _, .boolean _ => True
  | .getSessionVariables _, .array _ => True
  | .ensureResource .., .dict _ => True
  | .initSuccess, .nothing => True
  | .setAttribute .., .nothing => True
  | .updateSessionVariables .., .nothing => True
  | .log .., .nothing => True
  | .stdout _, .nothing => True
  | .hintLargeAttribute _, .nothing => True
  | _, _ => False

/-- A command the protocol allows while the filter initializes or works on an
object, with readable items. The bytes sent with `stdout` are whatever the
filter printed. -/
def Command.WellFormed : Command → Prop
  | .getAttribute key => key.isSome
  | .setAttribute key _ => key.isSome
  | .omitAttribute key => key.isSome
  | .getSessionVariables keys => ∀ key ∈ keys, key.isSome
  | .updateSessionVariables keys values =>
    keys.length = values.length ∧ (∀ key ∈ keys, key.isSome) ∧ ∀ value ∈ values, value.isSome
  | .log level message => level.isSome ∧ message.isSome
  | .stdout _ => True
  | .ensureResource scope rtype args =>
    scope = some "session" ∧ rtype.isSome ∧ ∀ arg ∈ args, arg.isSome
  | .hintLargeAttribute size => size.isSome
  | .initSuccess => False
  | .result _ => False
  | .unknown _ => False

/-- Any commands closed by exactly one result. -/
def Proc.FollowsObject : Proc σ → Prop
  | .emit cmd next => cmd.WellFormed ∧ ∀ r, cmd.Admits r → (next r).FollowsObject
  | .finish score _ => score.isSome
  | .exit => False

/-- Any initialization messages, `init-success`, then the first object. -/
def Proc.FollowsStart : Proc σ → Prop
  | .emit cmd next =>
    (cmd = .initSuccess ∧ (next .nothing).FollowsObject) ∨
      (cmd.WellFormed ∧ ∀ r, cmd.Admits r → (next r).FollowsStart)
  | .finish _ _ => False
  | .exit => False

/-- The filter keeps to the protocol on every object. -/
structure Program.FollowsProtocol (program : Program σ) : Prop where
  /-- A new process initializes and then works on its first object. -/
  start : program.start.FollowsStart
  /-- Whatever it remembers, it closes every later object. -/
  body : ∀ s, (program.body s).FollowsObject

/-- The meaning of a command: the reply and the effect on the object and on
the search. None when there is no such command or no such resource. -/
def answer (svc : Services ε) (obj : Object m) (env : ε) :
    Command → Option (Reply × Object m × ε)
  | .initSuccess => some (.nothing, obj, env)
  | .getAttribute key => key.map fun key => (.item (obj.attrs.get? key), obj, env)
  | .setAttribute key value => key.map fun key => (.nothing, obj.setItem key value, env)
  | .omitAttribute key => key.map fun key =>
    match obj.omitAttr key with
    | some obj => (.boolean true, obj, env)
    | none => (.boolean false, obj, env)
  | .getSessionVariables keys => (keys.mapM id).map fun names =>
    (.array (names.map (svc.filterGet env)), obj, env)
  | .updateSessionVariables keys values => do
    let names ← keys.mapM id
    let numbers ← values.mapM id
    return (.nothing, obj, svc.filterUpdate env (Dict.empty.setAll (names.zip numbers)))
  | .log .. => some (.nothing, obj, env)
  | .stdout _ => some (.nothing, obj, env)
  | .hintLargeAttribute _ => some (.nothing, obj, env)
  | .ensureResource _ rtype args => do
    let (env, handle) ← (svc.ensureResource env (← rtype) (← args.mapM id)).toOption
    return (.dict handle, obj, env)
  | .result _ => none
  | .unknown _ => none

/-- The meaning of a command on an object with texts. There is none for a
read of a text without an encoding. -/
def answerText (svc : Services ε) (unencodable : Finset String) (obj : Object m) (env : ε)
    (cmd : Command) : Option (Reply × Object m × ε) :=
  if cmd.refused unencodable then none else answer svc obj env cmd

/-- What a filter says about one object when every command gets its meaning. -/
structure Exchange (m : Murmur) (ε σ : Type) where
  /-- The commands emitted for the object. -/
  commands : List Command
  /-- The object after them. -/
  obj : Object m
  /-- Session variables and resources after them. -/
  env : ε
  /-- The score and what the filter remembers; none if it was left without
  an answer. -/
  ended : Option (Double × σ)

/-- Let a filter work on an object, without a command loop in between. -/
def exchange (svc : Services ε) : Proc σ → Finset String → Object m → ε → Exchange m ε σ
  | .emit cmd next, unencodable, obj, env =>
    match answerText svc unencodable obj env cmd with
    | some (r, obj', env') =>
      let tail := exchange svc (next r) (cmd.leaves unencodable) obj' env'
      { tail with commands := cmd :: tail.commands }
    | none => ⟨[cmd], obj, env, none⟩
  | .finish score s, _, obj, env =>
    ⟨[.result score], obj, env, score.map fun score => (score, s)⟩
  | .exit, _, obj, env => ⟨[], obj, env, none⟩

/-- One object's share of a conversation. -/
structure Turn (m : Murmur) where
  /-- The commands taken for the object. -/
  commands : List Command
  /-- The object after them. -/
  obj : Object m
  /-- The score returned, if any. -/
  score : Option Double

/-- The filter's own view: it works on the objects one after the other. -/
def turns (svc : Services ε) (program : Program σ) :
    Proc σ → List (TextObject m) → ε → List (Turn m)
  | _, [], _ => []
  | proc, obj :: objs, env =>
    let x := exchange svc proc obj.unencodable obj.obj env
    match x.ended with
    | some (score, s) =>
      ⟨x.commands, x.obj, some score⟩ :: turns svc program (program.body s) objs x.env
    | none => [⟨x.commands, x.obj, none⟩]

/-- The server's view: successive calls of `evaluate` on one connection, up
to the first call that raises. -/
def calls (svc : Services ε) (program : Program σ) :
    Option (Connection σ) → List (TextObject m) → ε → List (Turn m)
  | _, [], _ => []
  | conn, obj :: objs, env =>
    let r := evaluateText svc program conn false obj env
    match r.outcome, r.connection with
    | .ok result, some conn =>
      ⟨r.consumed, r.obj, some result.score⟩ :: calls svc program (some conn) objs r.env
    | _, _ => [⟨r.consumed, r.obj, none⟩]

/-- Every call takes exactly the commands the filter emitted for its object,
applies them to that object and returns the score of its result. -/
def InStep (svc : Services ε) (program : Program σ) (objs : List (TextObject m)) (env : ε) :
    Prop :=
  calls svc program none objs env = turns svc program program.start objs env ∧
    ∀ turn ∈ calls svc program none objs env, turn.score.isSome

/-- The commands that do not take the loop off the object they belong to. -/
def Command.Kept : Command → Prop
  | .hintLargeAttribute _ => False
  | .stdout text => text.isSome
  | _ => True

/-! ## One command -/

/-- A list in which nothing is missing has as many values as items. -/
theorem mapM_id_of_forall_isSome {α : Type*} {items : List (Option α)}
    (h : ∀ item ∈ items, item.isSome) :
    ∃ values, items.mapM id = some values ∧ values.length = items.length := by
  obtain ⟨values, hvalues⟩ := Option.isSome_iff_exists.mp (isSome_mapM_iff.mpr h)
  exact ⟨values, hvalues, (forall₂_of_mapM_some hvalues).length_eq.symm⟩

/-- A command that occurs in a filter that follows the protocol. -/
def Command.Allowed (cmd : Command) : Prop := cmd = .initSuccess ∨ cmd.WellFormed

/-- A process that follows the protocol from here on. -/
def Proc.Follows (proc : Proc σ) : Prop := proc.FollowsStart ∨ proc.FollowsObject

/-- A filter that follows the protocol sends commands that are allowed, and follows it after every
reply that it may get. -/
theorem Proc.Follows.emit {cmd : Command} {next : Reply → Proc σ}
    (h : (Proc.emit cmd next).Follows) :
    cmd.Allowed ∧ ∀ r, cmd.Admits r → (next r).Follows := by
  rcases h with (⟨rfl, hn⟩ | ⟨hw, hn⟩) | ⟨hw, hn⟩
  · refine ⟨.inl rfl, fun r hr => ?_⟩
    cases r <;> simp only [Command.Admits] at hr
    exact .inr hn
  · exact ⟨.inr hw, fun r hr => .inl (hn r hr)⟩
  · exact ⟨.inr hw, fun r hr => .inr (hn r hr)⟩

/-- An allowed command that keeps the loop on its object is answered by the
loop as the protocol says; without an answer the loop raises. -/
theorem handle_of_kept (svc : Services ε) (st : LoopState m ε) {cmd : Command}
    (ha : cmd.Allowed) (hk : cmd.Kept) :
    match answer svc st.obj st.env cmd with
    | some (r, obj, env) => cmd.Admits r ∧
        ∃ st', handle svc st cmd = .reply r st' ∧ st'.obj = obj ∧ st'.env = env
    | none => ∃ failure, handle svc st cmd = .raise failure := by
  rcases ha with rfl | hw
  · exact ⟨trivial, _, rfl, rfl, rfl⟩
  cases cmd with
  | getAttribute key =>
    obtain ⟨key, rfl⟩ := Option.isSome_iff_exists.mp hw
    simp only [answer, Option.map_some, handle]
    cases hv : st.obj.attrs.get? key <;> exact ⟨trivial, _, rfl, rfl, rfl⟩
  | setAttribute key value =>
    obtain ⟨key, rfl⟩ := Option.isSome_iff_exists.mp hw
    exact ⟨trivial, _, rfl, rfl, rfl⟩
  | omitAttribute key =>
    obtain ⟨key, rfl⟩ := Option.isSome_iff_exists.mp hw
    simp only [answer, Option.map_some, handle]
    cases ho : st.obj.omitAttr key <;> exact ⟨trivial, _, rfl, rfl, rfl⟩
  | getSessionVariables keys =>
    obtain ⟨names, hn, _⟩ := mapM_id_of_forall_isSome hw
    simp only [answer, handle, hn, Option.map_some]
    exact ⟨trivial, st, rfl, rfl, rfl⟩
  | updateSessionVariables keys values =>
    obtain ⟨hlen, hkeys, hvalues⟩ := hw
    obtain ⟨names, hn, hnl⟩ := mapM_id_of_forall_isSome hkeys
    obtain ⟨numbers, hv, hvl⟩ := mapM_id_of_forall_isSome hvalues
    have hl : names.length = numbers.length := by omega
    simp only [answer, handle, hn, hv, hl, Option.bind_eq_bind, Option.bind_some, Option.pure_def,
      ne_eq, not_true_eq_false, if_false]
    exact ⟨trivial, _, rfl, rfl, rfl⟩
  | log level message =>
    obtain ⟨level, rfl⟩ := Option.isSome_iff_exists.mp hw.1
    obtain ⟨message, rfl⟩ := Option.isSome_iff_exists.mp hw.2
    exact ⟨trivial, st, rfl, rfl, rfl⟩
  | stdout text =>
    obtain ⟨text, rfl⟩ := Option.isSome_iff_exists.mp hk
    exact ⟨trivial, st, rfl, rfl, rfl⟩
  | ensureResource scope rtype args =>
    obtain ⟨rfl, hr, hargs⟩ := hw
    obtain ⟨rtype, rfl⟩ := Option.isSome_iff_exists.mp hr
    obtain ⟨args, hn, _⟩ := mapM_id_of_forall_isSome hargs
    cases he : svc.ensureResource st.env rtype args with
    | error raised =>
      simp only [answer, handle, hn, he, Except.toOption, Option.bind_eq_bind, Option.bind_some,
        Option.bind_none, if_true]
      cases raised <;> exact ⟨_, rfl⟩
    | ok made =>
      simp only [answer, handle, hn, he, Except.toOption, Option.bind_eq_bind, Option.bind_some,
        Option.pure_def, if_true]
      exact ⟨trivial, _, rfl, rfl, rfl⟩
  | hintLargeAttribute size => exact hk.elim
  | initSuccess => exact hw.elim
  | result score => exact hw.elim
  | unknown tag => exact hw.elim

/-- The other allowed commands take the loop off the object. -/
theorem handle_of_not_kept (svc : Services ε) (st : LoopState m ε) {cmd : Command}
    (ha : cmd.Allowed) (hk : ¬cmd.Kept) :
    handle svc st cmd = .leave st ∨ ∃ failure, handle svc st cmd = .raise failure := by
  cases cmd with
  | hintLargeAttribute size =>
    rcases ha with h | hw
    · cases h
    · obtain ⟨size, rfl⟩ := Option.isSome_iff_exists.mp hw
      exact .inl rfl
  | stdout text =>
    cases text with
    | none => exact .inr ⟨_, rfl⟩
    | some text => exact (hk rfl).elim
  | _ => exact (hk trivial).elim

/-- On an object with texts, a command that keeps the loop on the object is
answered as the protocol says, and a read of a text without an encoding
raises. -/
theorem handleText_of_kept (svc : Services ε) (unencodable : Finset String) (st : LoopState m ε)
    {cmd : Command} (ha : cmd.Allowed) (hk : cmd.Kept) :
    match answerText svc unencodable st.obj st.env cmd with
    | some (r, obj, env) => cmd.Admits r ∧
        ∃ st', handleText svc unencodable st cmd = .reply r st' ∧ st'.obj = obj ∧ st'.env = env
    | none => ∃ failure, handleText svc unencodable st cmd = .raise failure := by
  unfold answerText handleText
  split_ifs
  · exact ⟨_, rfl⟩
  · exact handle_of_kept svc st ha hk

/-- The other allowed commands read nothing. -/
theorem handleText_of_not_kept (svc : Services ε) (unencodable : Finset String)
    (st : LoopState m ε) {cmd : Command} (ha : cmd.Allowed) (hk : ¬cmd.Kept) :
    handleText svc unencodable st cmd = .leave st ∨
      ∃ failure, handleText svc unencodable st cmd = .raise failure := by
  unfold handleText
  split_ifs
  · exact .inr ⟨_, rfl⟩
  · exact handle_of_not_kept svc st ha hk

/-! ## One object -/

/-- On commands that all keep it on the object, the loop follows the filter
to its result. -/
theorem commandLoop_of_kept (svc : Services ε) {proc : Proc σ} (hp : proc.Follows)
    (texts : Finset String) (st : LoopState m ε) {score : Double} {s : σ}
    (he : (exchange svc proc texts st.obj st.env).ended = some (score, s))
    (hk : ∀ cmd ∈ (exchange svc proc texts st.obj st.env).commands, cmd.Kept) :
    (commandLoopText svc proc texts st).ending = .finished s ∧
      (commandLoopText svc proc texts st).state.obj = (exchange svc proc texts st.obj st.env).obj ∧
      (commandLoopText svc proc texts st).state.env = (exchange svc proc texts st.obj st.env).env ∧
      (commandLoopText svc proc texts st).state.result.score = score ∧
      (commandLoopText svc proc texts st).consumed =
        (exchange svc proc texts st.obj st.env).commands := by
  induction proc generalizing texts st with
  | emit cmd next ih =>
    obtain ⟨ha, hn⟩ := hp.emit
    cases hans : answerText svc texts st.obj st.env cmd with
    | none => simp [exchange, hans] at he
    | some meaning =>
      rcases meaning with ⟨r, obj, env⟩
      simp only [exchange, hans] at he hk ⊢
      have hh := handleText_of_kept svc texts st ha (hk cmd List.mem_cons_self)
      rw [hans] at hh
      obtain ⟨hr, st', hst, rfl, rfl⟩ := hh
      obtain ⟨h1, h2, h3, h4, h5⟩ :=
        ih r (hn r hr) (cmd.leaves texts) st' he fun c hc => hk c (List.mem_cons_of_mem _ hc)
      simp only [commandLoopText, hst]
      exact ⟨h1, h2, h3, h4, by rw [h5]⟩
  | finish number s' =>
    cases number with
    | none => simp [exchange] at he
    | some number =>
      simp only [exchange, Option.map_some, Option.some.injEq, Prod.mk.injEq] at he
      obtain ⟨rfl, rfl⟩ := he
      exact ⟨rfl, rfl, rfl, rfl, rfl⟩
  | exit => simp [exchange] at he

/-- A completed exchange has at least the command that closes it. -/
theorem exchange_commands_ne_nil (svc : Services ε) {proc : Proc σ} {texts : Finset String}
    {obj : Object m} {env : ε} (he : (exchange svc proc texts obj env).ended.isSome) :
    (exchange svc proc texts obj env).commands ≠ [] := by
  cases proc with
  | emit cmd next =>
    simp only [exchange]
    split <;> simp
  | finish score s => simp [exchange]
  | exit => simp [exchange] at he

/-- A loop that returns after reading exactly the commands of the object met
none that takes it off the object. -/
theorem kept_of_consumed (svc : Services ε) {proc : Proc σ} (hp : proc.Follows)
    (texts : Finset String) (st : LoopState m ε)
    (he : (exchange svc proc texts st.obj st.env).ended.isSome)
    (hr : ∀ failure, (commandLoopText svc proc texts st).ending ≠ .raised failure)
    (hc : (commandLoopText svc proc texts st).consumed =
      (exchange svc proc texts st.obj st.env).commands) :
    ∀ cmd ∈ (exchange svc proc texts st.obj st.env).commands, cmd.Kept := by
  induction proc generalizing texts st with
  | emit cmd next ih =>
    obtain ⟨ha, hn⟩ := hp.emit
    cases hans : answerText svc texts st.obj st.env cmd with
    | none => simp [exchange, hans] at he
    | some meaning =>
      rcases meaning with ⟨r, obj, env⟩
      simp only [exchange, hans] at he hc ⊢
      by_cases hk : cmd.Kept
      · have hh := handleText_of_kept svc texts st ha hk
        rw [hans] at hh
        obtain ⟨hadm, st', hst, rfl, rfl⟩ := hh
        simp only [commandLoopText, hst] at hr hc
        have htail := ih r (hn r hadm) (cmd.leaves texts) st' he hr (List.cons_injective hc)
        exact List.forall_mem_cons.mpr ⟨hk, htail⟩
      · rcases handleText_of_not_kept svc texts st ha hk with hst | ⟨failure, hst⟩
        · -- the loop stopped here, but the filter still had to send its result
          simp only [commandLoopText, hst] at hc
          exact absurd (List.cons_injective hc).symm (exchange_commands_ne_nil svc he)
        · simp only [commandLoopText, hst] at hr
          exact absurd rfl (hr failure)
  | finish score s => simp [exchange, Command.Kept]
  | exit => simp [exchange] at he

/-- The process a call of `evaluate` starts from. -/
def connected (program : Program σ) (conn : Option (Connection σ)) : Proc σ :=
  (conn.getD ⟨program.start, false⟩).proc

/-- One call on commands that all keep it on its object: it takes the whole
turn of the filter and leaves the process at its next object. -/
theorem calls_cons_of_kept (svc : Services ε) (program : Program σ) {conn : Option (Connection σ)}
    (hp : (connected program conn).Follows) (obj : TextObject m) (objs : List (TextObject m))
    (env : ε) {score : Double} {s : σ}
    (he : (exchange svc (connected program conn) obj.unencodable obj.obj env).ended =
      some (score, s))
    (hk : ∀ cmd ∈ (exchange svc (connected program conn) obj.unencodable obj.obj env).commands,
      cmd.Kept) :
    ∃ initialized, calls svc program conn (obj :: objs) env =
      ⟨(exchange svc (connected program conn) obj.unencodable obj.obj env).commands,
        (exchange svc (connected program conn) obj.unencodable obj.obj env).obj, some score⟩ ::
      calls svc program (some ⟨program.body s, initialized⟩) objs
        (exchange svc (connected program conn) obj.unencodable obj.obj env).env := by
  let st : LoopState m ε := ⟨obj.obj, .new, env, (conn.getD ⟨program.start, false⟩).initialized⟩
  obtain ⟨h1, h2, h3, h4, h5⟩ := commandLoop_of_kept svc hp obj.unencodable st he hk
  refine ⟨(commandLoopText svc (connected program conn) obj.unencodable st).state.initialized, ?_⟩
  simp only [connected, st] at h1 h2 h3 h4 h5 ⊢
  simp only [calls, evaluateText, concluded, h1, h2, h3, h4, h5]

/-- The first of several calls reports the commands its loop read, and no
score if the loop raised. -/
theorem calls_cons_head (svc : Services ε) (program : Program σ) (conn : Option (Connection σ))
    (obj : TextObject m) (objs : List (TextObject m)) (env : ε) :
    ∃ st turn rest, st.obj = obj.obj ∧ st.env = env ∧
      calls svc program conn (obj :: objs) env = turn :: rest ∧
      turn.commands =
        (commandLoopText svc (connected program conn) obj.unencodable st).consumed ∧
      (turn.score.isSome → ∀ failure,
        (commandLoopText svc (connected program conn) obj.unencodable st).ending ≠
          .raised failure) := by
  let st : LoopState m ε := ⟨obj.obj, .new, env, (conn.getD ⟨program.start, false⟩).initialized⟩
  refine ⟨st, ?_⟩
  cases he : (commandLoopText svc (connected program conn) obj.unencodable st).ending with
  | finished s =>
    simp only [connected, st] at he ⊢
    simp only [calls, evaluateText, concluded, he]
    exact ⟨_, _, trivial, trivial, rfl, rfl, fun _ _ h => by cases h⟩
  | broken rest =>
    simp only [connected, st] at he ⊢
    simp only [calls, evaluateText, concluded, he]
    exact ⟨_, _, trivial, trivial, rfl, rfl, fun _ _ h => by cases h⟩
  | raised failure =>
    simp only [connected, st] at he ⊢
    simp only [calls, evaluateText, concluded, he]
    exact ⟨_, _, trivial, trivial, rfl, rfl, fun h => by cases h⟩

/-- In any position of a conversation, the calls agree with the turns exactly
when every turn is completed by commands that keep the loop on the object. -/
theorem calls_eq_turns_iff (svc : Services ε) {program : Program σ}
    (hprog : program.FollowsProtocol) (objs : List (TextObject m)) (env : ε)
    (conn : Option (Connection σ)) (hp : (connected program conn).Follows) :
    (calls svc program conn objs env = turns svc program (connected program conn) objs env ∧
        ∀ turn ∈ calls svc program conn objs env, turn.score.isSome) ↔
      ∀ turn ∈ turns svc program (connected program conn) objs env,
        turn.score.isSome ∧ ∀ cmd ∈ turn.commands, cmd.Kept := by
  induction objs generalizing env conn with
  | nil => simp [calls, turns]
  | cons obj objs ih =>
    have hnext : ∀ s i, (connected program (some ⟨program.body s, i⟩)).Follows :=
      fun s i => .inr (hprog.body s)
    cases he : (exchange svc (connected program conn) obj.unencodable obj.obj env).ended with
    | none =>
      simp only [turns, he]
      constructor
      · rintro ⟨heq, hsome⟩
        rw [heq] at hsome
        simp at hsome
      · intro h
        simp at h
    | some ending =>
      rcases ending with ⟨score, s⟩
      by_cases hk :
          ∀ cmd ∈ (exchange svc (connected program conn) obj.unencodable obj.obj env).commands,
            cmd.Kept
      · obtain ⟨i, hcalls⟩ := calls_cons_of_kept svc program hp obj objs env he hk
        have htail := ih (exchange svc (connected program conn) obj.unencodable obj.obj env).env
          (some ⟨program.body s, i⟩) (hnext s i)
        simp only [hcalls, turns, he, List.cons.injEq, true_and, List.forall_mem_cons]
        simp only [connected, Option.getD_some] at htail hk ⊢
        simp only [Option.isSome_some, true_and]
        exact ⟨fun h => ⟨hk, htail.mp h⟩, fun h => htail.mpr h.2⟩
      · -- the call and the turn cannot agree on the commands taken
        have hturn : ¬∀ turn ∈ turns svc program (connected program conn) (obj :: objs) env,
            turn.score.isSome ∧ ∀ cmd ∈ turn.commands, cmd.Kept := by
          simp only [turns, he, List.forall_mem_cons]
          exact fun h => hk h.1.2
        refine ⟨fun h => absurd ?_ hk, fun h => absurd h hturn⟩
        obtain ⟨heq, hsome⟩ := h
        obtain ⟨st, turn, rest, hobj, rfl, hcalls, hcmds, hret⟩ :=
          calls_cons_head svc program conn obj objs env
        simp only [hcalls, turns, he, List.cons.injEq] at heq
        have hs := hsome turn (by simp [hcalls])
        rw [← hobj] at he ⊢
        refine kept_of_consumed svc hp obj.unencodable st (by simp [he]) (hret hs) ?_
        rw [← hcmds, heq.1, hobj]

/-! ## The whole conversation -/

/-- The server stays in step with a filter that follows the protocol, over
any objects, exactly when the filter gives no size hint and prints only valid
UTF-8 while it works on them, reads no text without an encoding and gets the
resources it asks for. -/
theorem inStep_iff_kept (svc : Services ε) (program : Program σ)
    (hprog : program.FollowsProtocol) (objs : List (TextObject m)) (env : ε) :
    InStep svc program objs env ↔
      ∀ turn ∈ turns svc program program.start objs env,
        turn.score.isSome ∧ ∀ cmd ∈ turn.commands, cmd.Kept :=
  calls_eq_turns_iff svc hprog objs env none (.inl hprog.start)

/-- A search without session variables and resources. -/
def noServices : Services Unit :=
  ⟨fun _ _ => .zero, fun _ _ => (), fun _ _ _ => .error .other⟩

/-- A filter that scores every object one and announces `commands` first. -/
def announcing (commands : List Command) : Program Unit :=
  let body := commands.foldr (fun cmd next => Proc.emit cmd fun _ => next) (.finish (some .one) ())
  ⟨.emit .initSuccess fun _ => body, fun _ => body⟩

/-- An object whose values all have an encoding. -/
def TextObject.encoded (obj : Object m) : TextObject m where
  obj
  unencodable := ∅
  held key h := absurd h (Finset.notMem_empty key)
  unsigned h := absurd h Finset.not_nonempty_empty

/-- An object of a search without signatures. -/
def unsignedObject : Object hexMurmur := Object.new hexMurmur "host" "http://host/2" none none false

theorem unsignedObject_unsigned : unsignedObject.computeSignature = false := rfl

/-- An object whose title is a text without an encoding. -/
def titled : TextObject hexMurmur where
  obj := unsignedObject.setItem "title" []
  unencodable := {"title"}
  held key h := by
    rw [Finset.mem_singleton.mp h]
    simp [Object.contains]
  unsigned _ := unsignedObject_unsigned

/-- Two objects, the second one with a title. -/
def sampleObjects : List (TextObject hexMurmur) :=
  [.encoded (Object.new hexMurmur "host" "http://host/1" none none true), titled]

/-- A filter that reads the object's name before its result is in step, also
on an object with a text that has no encoding. -/
theorem inStep_reading :
    (announcing [.getAttribute (some "_ObjectID")]).FollowsProtocol ∧
      InStep noServices (announcing [.getAttribute (some "_ObjectID")]) sampleObjects () := by
  have hprog : (announcing [.getAttribute (some "_ObjectID")]).FollowsProtocol :=
    ⟨.inl ⟨rfl, rfl, fun _ _ => rfl⟩, fun _ => ⟨rfl, fun _ _ => rfl⟩⟩
  refine ⟨hprog, (inStep_iff_kept noServices _ hprog _ ()).mpr ?_⟩
  simp [sampleObjects, TextObject.encoded, titled, turns, exchange, answerText, answer,
    Command.refused, Command.leaves, announcing, Command.Kept]

/-- The call for an object whose title the filter reads raises. -/
example :
    (calls noServices (announcing [.getAttribute (some "title")]) none sampleObjects ()).map
      (fun turn => (turn.commands, turn.score)) =
        [([.initSuccess, .getAttribute (some "title"), .result (some .one)], some .one),
          ([.getAttribute (some "title")], none)] := rfl

/-- A filter that hints at a large attribute before its result: the call for
the first object returns at the hint, with the score zero, and the result of
that object goes to the call for the second. -/
theorem hint_shifts_results :
    (announcing [.hintLargeAttribute (some 65536)]).FollowsProtocol ∧
      (calls noServices (announcing [.hintLargeAttribute (some 65536)]) none sampleObjects ()).map
        (fun turn => (turn.commands, turn.score)) =
        [([.initSuccess, .hintLargeAttribute (some 65536)], some .zero),
          ([.result (some .one)], some .one)] ∧
      ¬InStep noServices (announcing [.hintLargeAttribute (some 65536)]) sampleObjects () := by
  refine ⟨⟨.inl ⟨rfl, rfl, fun _ _ => rfl⟩, fun _ => ⟨rfl, fun _ _ => rfl⟩⟩, rfl, ?_⟩
  rintro ⟨h, _⟩
  have hscores := congrArg (List.map Turn.score) h
  revert hscores
  decide

end OpenDiamond.FilterProtocol
