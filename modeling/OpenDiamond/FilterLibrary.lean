import OpenDiamond.CachedEvaluation
import OpenDiamond.FilterObject
import OpenDiamond.FilterStart

/-!
# Filters that use the Python library

The code of a filter is the tree of the calls that it makes on its object and its session, with what
it does with each answer. The library answers a read from what it knows of the object, and turns
every other call into a message. Through the library and the command loop of the server the calls
do what they say.

The library asks for an attribute once, and not for what the filter wrote before. The record that
the server takes of a filter then has what the filter was told, except for its omissions.
-/

namespace OpenDiamond.FilterLibrary

open Lib.OrderedDict Lib.Binary64 DiamondObject FilterProtocol AttributeCache FilterObject
open CachedDrop (Determined)
open CachedEvaluation (inputsMatch_of_load)
open FilterStart (Startup failed)

variable {m : Murmur} {ε σ : Type}

/-! ## Code and library -/

/-- A call on the object or on the session. -/
inductive ApiCall where
  | object (op : PyOp)
  | log (level message : String)
  | getVars (names : List String)
  | updateVars (vars : Dict String Double)
  | ensureResource (scope rtype : String) (params : List String)
  | hintLargeAttribute (size : ℤ)

/-- What a call returns or raises. -/
inductive Answer where
  | object (response : Response)
  | nothing
  | vars (values : Dict String Double)
  | handle (entries : Dict String String)
  /-- `log` with a level that it does not know. -/
  | unboundLocalError
  /-- `update_vars` without variables. -/
  | valueError

/-- What `__call__` returns. -/
inductive Score where
  | bool (value : Bool)
  | none
  | number (value : Double)
  /-- Anything that `float` does not read on the server. -/
  | other

/-- The `result` that is sent. -/
def Score.result : Score → Number
  | .bool true => some .one
  | .bool false => some .zero
  | .none => some .zero
  | .number value => some value
  | .other => Option.none

/-- The code of a filter from some point to the end of its object. An exception that it does not
catch ends the process; σ is what it keeps from one object to the next. -/
inductive Code (σ : Type) where
  | call (call : ApiCall) (next : Answer → Code σ)
  | returned (score : Score) (memory : σ)
  | raised (trace : String)

/-- `_attrs` of the object: the answers that are known, none for an absent attribute. -/
abbrev Known := Dict String (Option Bytes)

/-- What the library makes of a call: an answer, or a message and what becomes of the reply. -/
inductive Sent where
  | answered (answer : Answer)
  | message (cmd : Command) (receive : Reply → Answer × Known)

/-- The number of a level. -/
def logLevel : String → Option ℤ
  | "critical" => some 0x01
  | "error" => some 0x02
  | "info" => some 0x04
  | "trace" => some 0x08
  | "debug" => some 0x10
  | _ => none

/-- `get_binary`, and what is made of the value. -/
def getBinary (known : Known) (key : String) (view : Option Bytes → Response) : Sent :=
  match known.get? key with
  | some value => .answered (.object (view value))
  | none => .message (.getAttribute (some key)) fun
    | .item value => (.object (view value), known.set key value)
    | _ => (.nothing, known)

/-- The methods of `Object` and `Session`. A message is answered by a reply of its own kind. -/
def library (name : String) (known : Known) : ApiCall → Sent
  | .object (.getBinary key) => getBinary known key Response.ofValue
  | .object (.contains key) => getBinary known key fun value => .boolean value.isSome
  | .object (.setBinary _ none) => .answered (.object .invalid)
  | .object (.setBinary key (some value)) =>
    .message (.setAttribute (some key) value) fun _ =>
      (.object .done, known.set key (some value))
  | .object (.omitAttribute key) => .message (.omitAttribute (some key)) fun
    | .boolean true => (.object .done, known)
    | _ => (.object .missing, known)
  | .log level message =>
    match logLevel level with
    | some lval => .message (.log (some lval) (some (name ++ " : " ++ message))) fun _ =>
        (.nothing, known)
    | none => .answered .unboundLocalError
  | .getVars names => .message (.getSessionVariables (names.map some)) fun
    | .array values => (.vars (Dict.empty.setAll (names.zip values)), known)
    | _ => (.nothing, known)
  | .updateVars vars =>
    if vars.entries = [] then .answered .valueError
    else .message (.updateSessionVariables (vars.keys.map some) (vars.values.map some)) fun _ =>
      (.nothing, known)
  | .ensureResource scope rtype params =>
    .message (.ensureResource (some scope) (some rtype) (params.map some)) fun
      | .dict entries => (.handle entries, known)
      | _ => (.nothing, known)
  | .hintLargeAttribute size => .message (.hintLargeAttribute (some size)) fun _ =>
      (.nothing, known)

/-- A message to the server of an object, and what the library makes of the reply. -/
def Sent.perform (svc : Services ε) (obj : PyObject m ε) : Sent → Option (Answer × PyObject m ε)
  | .answered answer => some (answer, obj)
  | .message cmd receive => (request svc obj.server cmd).map fun sent =>
      ((receive sent.1).1, { obj with attrs := (receive sent.1).2, server := sent.2 })

/-- What a call on a valid object does is what the library makes of it. -/
theorem perform_library (svc : Services ε) (name : String) {obj : PyObject m ε}
    (hvalid : obj.valid = true) (op : PyOp) :
    (library name obj.attrs (.object op)).perform svc obj =
      (obj.perform svc op).map fun result => (.object result.1, result.2) := by
  have hget : ∀ (key : String) (view : Option Bytes → Response),
      (getBinary obj.attrs key view).perform svc obj =
        (obj.getBinary svc key).map fun found => (.object (view found.1), found.2) := by
    intro key view
    unfold getBinary PyObject.getBinary
    cases obj.attrs.get? key with
    | some value => rfl
    | none =>
      obtain ⟨server, hrequest, _⟩ := request_getAttribute svc obj.server key
      simp only [Sent.perform, PyObject.getAttribute, hrequest, Option.map_some]
  unfold PyObject.perform
  rw [if_neg (by simp [hvalid])]
  cases op with
  | getBinary key =>
    rw [library, hget, Option.map_map]
    rfl
  | contains key =>
    rw [library, hget, Option.map_map]
    rfl
  | setBinary key value =>
    cases value with
    | none => rfl
    | some value => rfl
  | omitAttribute key =>
    obtain ⟨server, hrequest, _⟩ := request_omitAttribute svc obj.server key
    simp only [library, Sent.perform, hrequest, Option.map_some]
    cases (serverValue obj.server key).isSome <;> rfl

/-- The commands of the code through the library. An exception is logged, and ends the process. -/
def translate (name : String) : Code σ → Known → Proc σ
  | .call call next, known =>
    match library name known call with
    | .answered answer => translate name (next answer) known
    | .message cmd receive => .emit cmd fun reply =>
        translate name (next (receive reply).1) (receive reply).2
  | .returned score memory, _ => .finish score.result memory
  | .raised trace, _ => .emit (.log (some 0x02) (some (name ++ " : " ++ trace))) fun _ => .exit

/-- The process of a filter whose constructor sends nothing: each object begins with no attribute
known. -/
def program (name : String) (start : σ) (call : σ → Code σ) : Program σ :=
  let body := fun memory => translate name (call memory) Dict.empty
  ⟨(Startup.ready start).proc (failed name) body, body⟩

/-! ## The calls without the library -/

/-- What a call means for the object and the search. An exception of the server ends the worker,
except for an `IOError` of a resource, which drops the object. -/
def direct (svc : Services ε) (obj : Object m) (env : ε) :
    ApiCall → Except Failure (Answer × Object m × ε)
  | .object (.getBinary key) => .ok (.object (.ofValue (obj.attrs.get? key)), obj, env)
  | .object (.contains key) => .ok (.object (.boolean (obj.attrs.get? key).isSome), obj, env)
  | .object (.setBinary _ none) => .ok (.object .invalid, obj, env)
  | .object (.setBinary key (some value)) => .ok (.object .done, obj.setItem key value, env)
  | .object (.omitAttribute key) =>
    match obj.omitAttr key with
    | some obj => .ok (.object .done, obj, env)
    | none => .ok (.object .missing, obj, env)
  | .log level _ => .ok (if (logLevel level).isSome then .nothing else .unboundLocalError, obj, env)
  | .getVars names =>
    .ok (.vars (Dict.empty.setAll (names.zip (names.map (svc.filterGet env)))), obj, env)
  | .updateVars vars =>
    if vars.entries = [] then .ok (.valueError, obj, env)
    else .ok (.nothing, obj, svc.filterUpdate env (Dict.empty.setAll vars.entries))
  | .ensureResource scope rtype params =>
    if scope = "session" then
      match svc.ensureResource env rtype params with
      | .ok (env, handle) => .ok (.handle handle, obj, env)
      -- the server takes it for the death of the filter
      | .error .ioError => .error .dropObject
      | .error .other => .error .resourceError
    else .error .typeError
  | .hintLargeAttribute _ => .ok (.nothing, obj, env)

/-- What the code did with an object. -/
structure Run (m : Murmur) (ε σ : Type) where
  /-- The score and what the code keeps, or the exception. -/
  outcome : Except Failure (Double × σ)
  /-- The object. -/
  obj : Object m
  /-- Session variables and resources. -/
  env : ε

/-- The code with its calls applied to the object and the search. -/
def run (svc : Services ε) : Code σ → Object m → ε → Run m ε σ
  | .call call next, obj, env =>
    match direct svc obj env call with
    | .ok (answer, obj, env) => run svc (next answer) obj env
    | .error failure => ⟨.error failure, obj, env⟩
  | .returned score memory, obj, env =>
    match score.result with
    | some score => ⟨.ok (score, memory), obj, env⟩
    | none => ⟨.error .valueError, obj, env⟩
  | .raised _, obj, env => ⟨.error .dropObject, obj, env⟩

/-- The call asks for a text that the server cannot send. -/
def ApiCall.refused (texts : Finset String) : ApiCall → Bool
  | .object (.getBinary key) => decide (key ∈ texts)
  | .object (.contains key) => decide (key ∈ texts)
  | _ => false

/-- The texts without an encoding after the call: what is written are bytes. -/
def ApiCall.leaves (texts : Finset String) : ApiCall → Finset String
  | .object (.setBinary key (some _)) => texts.erase key
  | _ => texts

/-- The code with its calls applied to an object with texts that have no encoding. A read of one
of them ends the worker. -/
def runText (svc : Services ε) : Code σ → Finset String → Object m → ε → Run m ε σ
  | .call call next, texts, obj, env =>
    if call.refused texts then ⟨.error .unicodeEncodeError, obj, env⟩
    else
      match direct svc obj env call with
      | .ok (answer, obj, env) => runText svc (next answer) (call.leaves texts) obj env
      | .error failure => ⟨.error failure, obj, env⟩
  | code, _, obj, env => run svc code obj env

/-- The code gives no hint, whatever it is answered. -/
def Code.Unhinted : Code σ → Prop
  | .call made next =>
    (∀ size, made ≠ .hintLargeAttribute size) ∧ ∀ answer, (next answer).Unhinted
  | .returned _ _ => True
  | .raised _ => True

/-! ## One call -/

/-- Every known answer is what the object holds. -/
def Synced (known : Known) (obj : Object m) : Prop :=
  ∀ key answer, known.get? key = some answer → answer = obj.attrs.get? key

/-- Where nothing is known, nothing known is wrong. -/
theorem synced_empty (obj : Object m) : Synced Dict.empty obj := by
  intro key answer h
  simp at h

/-- What is known stays right while the attributes stay. -/
theorem Synced.congr {known : Known} {obj obj' : Object m} (h : Synced known obj)
    (hattrs : obj'.attrs = obj.attrs) : Synced known obj' := by
  intro key answer hknown
  rw [hattrs]
  exact h key answer hknown

/-- The answer to a read. -/
theorem Synced.read {known : Known} {obj : Object m} (h : Synced known obj) (key : String) :
    Synced (known.set key (obj.attrs.get? key)) obj := by
  intro key' answer hanswer
  rw [Dict.get?_set] at hanswer
  split at hanswer
  · rename_i hkey
    cases hanswer
    rw [hkey]
  · exact h key' answer hanswer

/-- A write to the object and to what is known. -/
theorem Synced.write {known : Known} {obj : Object m} (h : Synced known obj) (key : String)
    (value : Bytes) : Synced (known.set key (some value)) (obj.setItem key value) := by
  intro key' answer hanswer
  rw [Object.setItem_attrs, Dict.get?_set]
  rw [Dict.get?_set] at hanswer
  split at hanswer
  · rename_i hkey
    rw [if_pos hkey]
    exact (Option.some.inj hanswer).symm
  · rename_i hkey
    rw [if_neg hkey]
    exact h key' answer hanswer

/-- A list of texts in which none is missing is read as it is. -/
theorem mapM_some {α : Type} (values : List α) : (values.map some).mapM id = some values := by
  induction values with
  | nil => rfl
  | cons value rest ih =>
    rw [List.map_cons, List.mapM_cons, ih]
    rfl

/-- What the library makes of a call, on the pipe of a server with the object. -/
inductive Exchanged (svc : Services ε) (st : LoopState m ε) (call : ApiCall) : Sent → Prop where
  /-- The library knows the answer. -/
  | known {answer : Answer}
      (hdirect : direct svc st.obj st.env call = .ok (answer, st.obj, st.env)) :
      Exchanged svc st call (.answered answer)
  /-- The server replies. -/
  | replied {cmd : Command} {receive : Reply → Answer × Known} {reply : Reply} {st' : LoopState m ε}
      (hhandle : handle svc st cmd = .reply reply st') (hinit : st'.initialized = st.initialized)
      (hdirect : direct svc st.obj st.env call = .ok ((receive reply).1, st'.obj, st'.env))
      (hsynced : Synced (receive reply).2 st'.obj) :
      Exchanged svc st call (.message cmd receive)
  /-- The server raises. -/
  | raised {cmd : Command} {receive : Reply → Answer × Known} {failure : Failure}
      (hhandle : handle svc st cmd = .raise failure)
      (hdirect : direct svc st.obj st.env call = .error failure) :
      Exchanged svc st call (.message cmd receive)

/-- The server answers a read with what the object holds, and changes neither the object nor the
session. -/
theorem handle_getAttribute (svc : Services ε) (st : LoopState m ε) (key : String) :
    ∃ st', handle svc st (.getAttribute (some key)) = .reply (.item (st.obj.attrs.get? key)) st' ∧
      st'.obj = st.obj ∧ st'.env = st.env ∧ st'.initialized = st.initialized := by
  simp only [handle]
  cases st.obj.attrs.get? key <;> exact ⟨_, rfl, rfl, rfl, rfl⟩

/-- A read, with what is made of the value. -/
theorem exchanged_getBinary (svc : Services ε) {known : Known} {st : LoopState m ε}
    (h : Synced known st.obj) {call : ApiCall} (key : String) {view : Option Bytes → Response}
    (hdirect : direct svc st.obj st.env call =
      .ok (.object (view (st.obj.attrs.get? key)), st.obj, st.env)) :
    Exchanged svc st call (getBinary known key view) := by
  unfold getBinary
  cases hknown : known.get? key with
  | some value =>
    rw [← h key value hknown] at hdirect
    exact .known hdirect
  | none =>
    obtain ⟨st', hhandle, hobj, henv, hinit⟩ := handle_getAttribute svc st key
    refine .replied hhandle hinit ?_ ?_
    · rw [hobj, henv]
      exact hdirect
    · rw [hobj]
      exact h.read key

/-- Every call but a hint. -/
theorem exchanged_library (svc : Services ε) (name : String) {known : Known} {st : LoopState m ε}
    (h : Synced known st.obj) (hinit : st.initialized = true) {call : ApiCall}
    (hcall : ∀ size, call ≠ .hintLargeAttribute size) :
    Exchanged svc st call (library name known call) := by
  cases call with
  | object op =>
    cases op with
    | getBinary key => exact exchanged_getBinary svc h key rfl
    | contains key => exact exchanged_getBinary svc h key rfl
    | setBinary key value =>
      cases value with
      | none => exact .known rfl
      | some value => exact .replied rfl rfl rfl (h.write key value)
    | omitAttribute key =>
      cases homit : st.obj.omitAttr key with
      | none =>
        have hhandle : handle svc st (.omitAttribute (some key)) = .reply (.boolean false) st := by
          simp only [handle, homit]
        exact .replied hhandle rfl (by simp only [direct, homit]) h
      | some obj =>
        have hattrs := congrArg Object.attrs (Object.omitAttr_eq_some.mp homit).2
        have hhandle : handle svc st (.omitAttribute (some key)) = .reply (.boolean true)
            { st with obj, result.omitAttrs := insert key st.result.omitAttrs } := by
          simp only [handle, homit]
        exact .replied hhandle rfl (by simp only [direct, homit]) (h.congr hattrs)
  | log level message =>
    cases hlevel : logLevel level with
    | none =>
      simp only [library, hlevel]
      exact .known (by simp [direct, hlevel])
    | some lval =>
      simp only [library, hlevel]
      exact .replied rfl rfl (by simp [direct, hlevel]) h
  | getVars names =>
    have hhandle : handle svc st (.getSessionVariables (names.map some)) =
        .reply (.array (names.map (svc.filterGet st.env))) st := by
      simp only [handle, mapM_some]
    exact .replied hhandle rfl rfl h
  | updateVars vars =>
    by_cases hempty : vars.entries = []
    · simp only [library, if_pos hempty]
      exact .known (by simp only [direct, if_pos hempty])
    · simp only [library, if_neg hempty]
      have hzip : vars.keys.zip vars.values = vars.entries := by
        rw [Dict.keys, Dict.values, List.zip_map', List.map_id']
      have hlength : vars.keys.length = vars.values.length := by
        rw [Dict.keys, Dict.values, List.length_map, List.length_map]
      have hhandle : handle svc st
          (.updateSessionVariables (vars.keys.map some) (vars.values.map some)) =
          .reply .nothing
            { st with env := svc.filterUpdate st.env (Dict.empty.setAll vars.entries) } := by
        simp only [handle, mapM_some, hlength, hzip, ne_eq, not_true_eq_false, if_false]
      exact .replied hhandle rfl (by simp only [direct, if_neg hempty]) h
  | ensureResource scope rtype params =>
    by_cases hscope : scope = "session"
    · cases hmade : svc.ensureResource st.env rtype params with
      | error raised =>
        cases raised with
        | ioError =>
          have hhandle :
              handle svc st (.ensureResource (some scope) (some rtype) (params.map some)) =
                .raise .dropObject := by
            simp only [handle, mapM_some, if_pos hscope, hmade, hinit, onIOError_true]
          exact .raised hhandle (by simp only [direct, if_pos hscope, hmade])
        | other =>
          have hhandle :
              handle svc st (.ensureResource (some scope) (some rtype) (params.map some)) =
                .raise .resourceError := by
            simp only [handle, mapM_some, if_pos hscope, hmade]
          exact .raised hhandle (by simp only [direct, if_pos hscope, hmade])
      | ok made =>
        obtain ⟨env, entries⟩ := made
        have hhandle : handle svc st (.ensureResource (some scope) (some rtype) (params.map some)) =
            .reply (.dict entries) { st with env } := by
          simp only [handle, mapM_some, if_pos hscope, hmade]
        exact .replied hhandle rfl (by simp only [direct, if_pos hscope, hmade]) h
    · have hhandle : handle svc st (.ensureResource (some scope) (some rtype) (params.map some)) =
          .raise .typeError := by
        simp only [handle, mapM_some, if_neg hscope]
      exact .raised hhandle (by simp only [direct, if_neg hscope])
  | hintLargeAttribute size => exact absurd rfl (hcall size)

/-! ## Texts without an encoding -/

/-- Without texts that cannot be encoded no call is refused. -/
theorem ApiCall.refused_empty (call : ApiCall) : call.refused ∅ = false := by
  unfold ApiCall.refused
  split <;> simp

/-- No call makes such a text. -/
theorem ApiCall.leaves_empty (call : ApiCall) : call.leaves ∅ = ∅ := by
  unfold ApiCall.leaves
  split
  · exact Finset.erase_empty _
  · rfl

/-- Where every value has its bytes, the run is that on the object. -/
theorem runText_empty (svc : Services ε) (code : Code σ) (obj : Object m) (env : ε) :
    runText svc code ∅ obj env = run svc code obj env := by
  induction code generalizing obj env with
  | call call next ih =>
    simp only [runText, run, call.refused_empty, call.leaves_empty, Bool.false_eq_true, if_false,
      ih]
  | returned score memory => rfl
  | raised trace => rfl

/-- No known answer is a text without an encoding. -/
def Sendable (known : Known) (texts : Finset String) : Prop :=
  ∀ key ∈ texts, known.get? key = none

/-- At the beginning of an object nothing is known, so no such text is. -/
theorem sendable_empty (texts : Finset String) : Sendable Dict.empty texts :=
  fun key _ => Dict.get?_empty key

/-- A value that is known from now on is not such a text any more. -/
theorem Sendable.set {known : Known} {texts : Finset String} (h : Sendable known texts)
    (key : String) (answer : Option Bytes) :
    Sendable (known.set key answer) (texts.erase key) := by
  intro key' hkey
  obtain ⟨hne, hmem⟩ := Finset.mem_erase.mp hkey
  rw [Dict.get?_set, if_neg hne.symm]
  exact h key' hmem

/-- A read that is refused is sent: the library does not know its answer. -/
theorem exists_message_of_refused (name : String) {known : Known} {texts : Finset String}
    (h : Sendable known texts) {call : ApiCall} (hrefused : call.refused texts = true) :
    ∃ key ∈ texts, ∃ receive,
      library name known call = .message (.getAttribute (some key)) receive := by
  have hread : ∀ (key : String) (view : Option Bytes → Response), key ∈ texts →
      ∃ receive, getBinary known key view = .message (.getAttribute (some key)) receive :=
    fun key view hkey => ⟨_, by rw [getBinary, h key hkey]⟩
  unfold ApiCall.refused at hrefused
  split at hrefused
  · have hkey := of_decide_eq_true hrefused
    exact ⟨_, hkey, hread _ _ hkey⟩
  · have hkey := of_decide_eq_true hrefused
    exact ⟨_, hkey, hread _ _ hkey⟩
  · cases hrefused

/-- The message of a call asks for, and writes, what the call does. What becomes known of the
reply is no text without an encoding. -/
structure Carries (known : Known) (texts : Finset String) (call : ApiCall) (cmd : Command)
    (receive : Reply → Answer × Known) : Prop where
  /-- The message is not refused. -/
  refused : cmd.refused texts = false
  /-- The texts that are left. -/
  leaves : cmd.leaves texts = call.leaves texts
  /-- What becomes known. -/
  sendable : ∀ reply, Sendable (receive reply).2 (call.leaves texts)

/-- The message of a call that is not refused is carried over the pipe, and its reply leaves a
library that can send again. -/
theorem carries_of_message (name : String) {known : Known} {texts : Finset String}
    (h : Sendable known texts) {call : ApiCall} (hrefused : call.refused texts = false)
    {cmd : Command} {receive : Reply → Answer × Known}
    (hsent : library name known call = .message cmd receive) :
    Carries known texts call cmd receive := by
  have hread : ∀ (key : String) (view : Option Bytes → Response), decide (key ∈ texts) = false →
      getBinary known key view = .message cmd receive →
      cmd.refused texts = false ∧ cmd.leaves texts = texts ∧
        ∀ reply, Sendable (receive reply).2 texts := by
    intro key view hkey hsent
    unfold getBinary at hsent
    split at hsent
    · cases hsent
    · cases hsent
      refine ⟨hkey, rfl, fun reply => ?_⟩
      have hset := h.set key
      rw [Finset.erase_eq_of_notMem (of_decide_eq_false hkey)] at hset
      cases reply with
      | item value => exact hset value
      | _ => exact h
  cases call with
  | object op =>
    cases op with
    | getBinary key =>
      obtain ⟨h1, h2, h3⟩ := hread key _ hrefused hsent
      exact ⟨h1, h2, h3⟩
    | contains key =>
      obtain ⟨h1, h2, h3⟩ := hread key _ hrefused hsent
      exact ⟨h1, h2, h3⟩
    | setBinary key value =>
      cases value with
      | none => cases hsent
      | some value =>
        cases hsent
        exact ⟨rfl, rfl, fun _ => h.set key (some value)⟩
    | omitAttribute key =>
      cases hsent
      refine ⟨rfl, rfl, fun reply => ?_⟩
      split <;> exact h
  | log level message =>
    simp only [library] at hsent
    split at hsent
    · cases hsent
      exact ⟨rfl, rfl, fun _ => h⟩
    · cases hsent
  | getVars names =>
    cases hsent
    refine ⟨rfl, rfl, fun reply => ?_⟩
    split <;> exact h
  | updateVars vars =>
    simp only [library] at hsent
    split at hsent
    · cases hsent
    · cases hsent
      exact ⟨rfl, rfl, fun _ => h⟩
  | ensureResource scope rtype params =>
    cases hsent
    refine ⟨rfl, rfl, fun reply => ?_⟩
    split <;> exact h
  | hintLargeAttribute size =>
    cases hsent
    exact ⟨rfl, rfl, fun _ => h⟩

/-- A call that the library answers by itself writes nothing on the server. -/
theorem leaves_of_answered (name : String) {known : Known} (texts : Finset String)
    {call : ApiCall} {answer : Answer} (hsent : library name known call = .answered answer) :
    call.leaves texts = texts := by
  unfold ApiCall.leaves
  split
  · cases hsent
  · rfl

/-! ## One object -/

/-- How the command loop ends on a run of the code. -/
def Run.ending (done : Run m ε σ) : Ending σ :=
  match done.outcome with
  | .ok (_, memory) => .finished memory
  | .error failure => .raised failure

/-- The loop leaves behind what the run does. -/
structure EndsAs (report : LoopReport m ε σ) (done : Run m ε σ) : Prop where
  /-- The loop ends with the code. -/
  ending : report.ending = done.ending
  /-- The object. -/
  obj : report.state.obj = done.obj
  /-- Session variables and resources. -/
  env : report.state.env = done.env
  /-- The process is still initialized. -/
  initialized : report.state.initialized = true
  /-- The score of a result. -/
  score : ∀ score memory, done.outcome = .ok (score, memory) → report.state.result.score = score

/-- Through the library and the command loop, the code does what it says. -/
theorem commandLoop_translate (svc : Services ε) (name : String) {code : Code σ}
    (hcode : code.Unhinted) {known : Known} {texts : Finset String} {st : LoopState m ε}
    (h : Synced known st.obj) (hsend : Sendable known texts) (hinit : st.initialized = true) :
    EndsAs (commandLoopText svc (translate name code known) texts st)
      (runText svc code texts st.obj st.env) := by
  induction code generalizing known texts st with
  | call call next ih =>
    obtain ⟨hcall, hnext⟩ := hcode
    unfold translate runText
    cases hrefused : call.refused texts with
    | true =>
      obtain ⟨key, hkey, receive, hsent⟩ := exists_message_of_refused name hsend hrefused
      simp only [hsent, commandLoopText, handleText, Command.refused, decide_eq_true hkey, if_true]
      exact ⟨rfl, rfl, rfl, hinit, fun _ _ h => by cases h⟩
    | false =>
      have hexchanged := exchanged_library svc name h hinit hcall
      have hcarries := @carries_of_message name known texts hsend call hrefused
      have hleaves := @leaves_of_answered name known texts call
      simp only [Bool.false_eq_true, if_false]
      generalize library name known call = sent at hexchanged hcarries hleaves ⊢
      cases hexchanged with
      | known hdirect =>
        rw [hdirect]
        dsimp only
        rw [hleaves rfl]
        exact ih _ (hnext _) h hsend hinit
      | replied hhandle hinit' hdirect hsynced =>
        rename_i cmd receive reply st'
        obtain ⟨hasked, hwritten, hknown⟩ := hcarries rfl
        simp only [hdirect, commandLoopText, handleText, hasked, hhandle, hwritten,
          Bool.false_eq_true, if_false]
        have hrest := ih (receive reply).1 (hnext _) hsynced (hknown reply) (hinit'.trans hinit)
        exact ⟨hrest.ending, hrest.obj, hrest.env, hrest.initialized, hrest.score⟩
      | raised hhandle hdirect =>
        simp only [hdirect, commandLoopText, handleText, (hcarries rfl).refused, hhandle,
          Bool.false_eq_true, if_false]
        exact ⟨rfl, rfl, rfl, hinit, fun _ _ h => by cases h⟩
  | returned score memory =>
    unfold translate runText run
    cases score.result with
    | none => exact ⟨rfl, rfl, rfl, hinit, fun _ _ h => by cases h⟩
    | some value =>
      refine ⟨rfl, rfl, rfl, hinit, fun score memory' h => ?_⟩
      cases h
      rfl
  | raised trace =>
    have hloop : commandLoopText svc (translate name (.raised trace : Code σ) known) texts st =
        ⟨.raised .dropObject, st, [.log (some 0x02) (some (name ++ " : " ++ trace))]⟩ := by
      simp [translate, commandLoopText, handleText, Command.refused, commandLoop, handle, hinit]
    rw [hloop]
    exact ⟨rfl, rfl, rfl, hinit, fun _ _ h => by cases h⟩

/-! ## One object after the other -/

/-- A call of `evaluate`. Other workers may have changed the variables since the one before. -/
structure Visit (m : Murmur) (ε : Type) where
  /-- The filter is slow on the object. -/
  slow : Bool
  /-- The object, with the texts that have no encoding. -/
  obj : TextObject m
  /-- Session variables and resources. -/
  env : ε

/-- What a call leaves behind. -/
structure Outcome (m : Murmur) (ε : Type) where
  /-- The score or the exception. -/
  score : Except Failure Double
  /-- The object. -/
  obj : Object m
  /-- Session variables and resources. -/
  env : ε

/-- The calls of a worker on one connection. It goes on after a drop, and ends with every other
exception. -/
def evaluations (svc : Services ε) (program : Program σ) :
    Option (Connection σ) → List (Visit m ε) → List (Outcome m ε)
  | _, [] => []
  | connection, visit :: rest =>
    let report := evaluateText svc program connection visit.slow visit.obj visit.env
    ⟨report.outcome.map FilterResult.score, report.obj, report.env⟩ ::
      match report.outcome with
      | .ok _ => evaluations svc program report.connection rest
      | .error .dropObject => evaluations svc program report.connection rest
      | .error _ => []

/-- The code on one object after the other. What it keeps is lost with the process. -/
def directly (svc : Services ε) (call : σ → Code σ) (start : σ) :
    σ → List (Visit m ε) → List (Outcome m ε)
  | _, [] => []
  | memory, visit :: rest =>
    let done := runText svc (call memory) visit.obj.unencodable visit.obj.obj visit.env
    ⟨done.outcome.map Prod.fst, done.obj, done.env⟩ ::
      match done.outcome with
      | .ok (_, memory) => directly svc call start memory rest
      | .error .dropObject => directly svc call start start rest
      | .error _ => []

/-- The connection to a filter that keeps something: a live one, or none for a new process. -/
def Keeps (name : String) (start : σ) (call : σ → Code σ) (memory : σ) :
    Option (Connection σ) → Prop
  | some connection =>
    connection.proc = translate name (call memory) Dict.empty ∧ connection.initialized = true
  | none => memory = start

/-- What a call of `evaluate` leaves behind, by the run of the code. -/
structure EvaluatesAs (name : String) (start : σ) (call : σ → Code σ)
    (report : EvaluateReport m ε σ) (done : Run m ε σ) : Prop where
  /-- The score or the exception. -/
  score : report.outcome.map FilterResult.score = done.outcome.map Prod.fst
  /-- The object. -/
  obj : report.obj = done.obj
  /-- Session variables and resources. -/
  env : report.env = done.env
  /-- The filter keeps what the code left, or starts again. -/
  connection : Keeps name start call
    (match done.outcome with | .ok (_, memory) => memory | .error _ => start) report.connection

/-- A call of `evaluate` whose loop ends with the code gives what the code gives. -/
theorem evaluatesAs_of_endsAs {svc : Services ε} {name : String} {start : σ} {call : σ → Code σ}
    {connection : Option (Connection σ)} {visit : Visit m ε} {done : Run m ε σ}
    (h : EndsAs (commandLoopText svc (connection.getD ⟨(program name start call).start, false⟩).proc
      visit.obj.unencodable ⟨visit.obj.obj, .new, visit.env,
        (connection.getD ⟨(program name start call).start, false⟩).initialized⟩) done) :
    EvaluatesAs name start call
      (evaluateText svc (program name start call) connection visit.slow visit.obj visit.env)
      done := by
  unfold evaluateText concluded
  dsimp only
  generalize commandLoopText svc _ _ _ = report at h ⊢
  have hending := h.ending
  have hscore := h.score
  unfold Run.ending at hending
  cases houtcome : done.outcome with
  | ok ended =>
    obtain ⟨score, memory⟩ := ended
    rw [houtcome] at hending
    simp only [hending]
    refine ⟨?_, h.obj, h.env, ?_⟩
    · rw [houtcome]
      exact congrArg Except.ok (hscore score memory houtcome)
    · rw [houtcome]
      exact ⟨rfl, h.initialized⟩
  | error failure =>
    rw [houtcome] at hending
    simp only [hending]
    refine ⟨?_, h.obj, h.env, ?_⟩
    · rw [houtcome]
      rfl
    · rw [houtcome]
      rfl

/-- A call of `evaluate` on a live connection, or with a new process. -/
theorem evaluate_program (svc : Services ε) (name : String) (start : σ) {call : σ → Code σ}
    (hcall : ∀ memory, (call memory).Unhinted) {memory : σ} {connection : Option (Connection σ)}
    (hkeeps : Keeps name start call memory connection) (visit : Visit m ε) :
    EvaluatesAs name start call
      (evaluateText svc (program name start call) connection visit.slow visit.obj visit.env)
      (runText svc (call memory) visit.obj.unencodable visit.obj.obj visit.env) := by
  have hlive : ∀ st : LoopState m ε, st.obj = visit.obj.obj → st.env = visit.env →
      st.initialized = true →
      EndsAs (commandLoopText svc (translate name (call memory) Dict.empty)
        visit.obj.unencodable st)
        (runText svc (call memory) visit.obj.unencodable visit.obj.obj visit.env) := by
    intro st hobj henv hinit
    rw [← hobj, ← henv]
    exact commandLoop_translate svc name (hcall memory) (synced_empty st.obj)
      (sendable_empty _) hinit
  apply evaluatesAs_of_endsAs
  cases connection with
  | some connection =>
    obtain ⟨hproc, hinit⟩ := hkeeps
    rw [Option.getD_some, hproc]
    exact hlive _ rfl rfl hinit
  | none =>
    cases hkeeps
    -- the loop answers `init-success` before the first object
    have hfirst := hlive ⟨visit.obj.obj, .new, visit.env, true⟩ rfl rfl rfl
    exact ⟨hfirst.ending, hfirst.obj, hfirst.env, hfirst.initialized, hfirst.score⟩

/-- From any connection, the rest of the objects. -/
theorem evaluations_eq (svc : Services ε) (name : String) (start : σ) {call : σ → Code σ}
    (hcall : ∀ memory, (call memory).Unhinted) {memory : σ} {connection : Option (Connection σ)}
    (hkeeps : Keeps name start call memory connection) (visits : List (Visit m ε)) :
    evaluations svc (program name start call) connection visits =
      directly svc call start memory visits := by
  induction visits generalizing memory connection with
  | nil => rfl
  | cons visit rest ih =>
    have hcalled := evaluate_program svc name start hcall hkeeps visit
    have hscore := hcalled.score
    have hconnection := hcalled.connection
    unfold evaluations directly
    dsimp only
    rw [hscore, hcalled.obj, hcalled.env]
    congr 1
    generalize evaluateText svc _ connection _ _ _ = report at hscore hconnection ⊢
    cases hdone : (runText svc (call memory) visit.obj.unencodable visit.obj.obj
        visit.env).outcome with
    | ok ended =>
      obtain ⟨score, kept⟩ := ended
      rw [hdone] at hscore hconnection
      cases hreport : report.outcome with
      | ok result => exact ih hconnection
      | error failure =>
        rw [hreport] at hscore
        cases hscore
    | error failure =>
      rw [hdone] at hscore hconnection
      cases hreport : report.outcome with
      | ok result =>
        rw [hreport] at hscore
        cases hscore
      | error failure' =>
        rw [hreport] at hscore
        cases hscore
        cases failure with
        | dropObject => exact ih hconnection
        | _ => rfl

/-- A filter that reads the name of the object, and raises when it has done so twice. -/
def twice (memory : ℕ) : Code ℕ := .call (.object (.getBinary "_ObjectID")) fun _ =>
  if memory = 2 then .raised "IndexError" else .returned (.bool true) (memory + 1)

/-- Four objects. The title of the second one has no encoding, but the filter does not read it. -/
def fourVisits : List (Visit hexMurmur Unit) :=
  [.encoded plainObject, titled, .encoded plainObject, .encoded plainObject].map
    fun obj => ⟨false, obj, ()⟩

/-- Every name of the list is known. -/
def Covers (known : Known) (touched : List String) : Prop :=
  ∀ key ∈ touched, (known.get? key).isSome

/-- No names are all known. -/
theorem covers_nil (known : Known) : Covers known [] :=
  fun _ hkey => absurd hkey List.not_mem_nil

/-- A name becomes known with its value, and what was known stays known. -/
theorem Covers.set {known : Known} {touched : List String} (h : Covers known touched) (key : String)
    (answer : Option Bytes) : Covers (known.set key answer) (key :: touched) := by
  intro name hname
  rw [Dict.get?_set]
  split
  · rfl
  · rename_i hkey
    rcases List.mem_cons.mp hname with rfl | hname
    · exact absurd rfl hkey
    · exact h name hname

/-- The call is about the object, an omission about an attribute that was read or written. -/
def ApiCall.Recorded (touched : List String) : ApiCall → Prop
  | .object (.omitAttribute key) => key ∈ touched
  | .object _ => True
  | .log _ _ => True
  | _ => False

/-- The attributes that were read or written, after the call. -/
def ApiCall.touch (touched : List String) : ApiCall → List String
  | .object (.getBinary key) => key :: touched
  | .object (.contains key) => key :: touched
  | .object (.setBinary key (some _)) => key :: touched
  | _ => touched

/-- The code asks about nothing but its object, and omits only what it has read or written. Its
scores are numbers. -/
def Code.Recorded : Code σ → List String → Prop
  | .call made next, touched =>
    made.Recorded touched ∧ ∀ answer, (next answer).Recorded (made.touch touched)
  | .returned score _, _ => score.result.isSome
  | .raised _, _ => True

/-- What the library makes of a call of such code, with the attributes that are read or written
then. -/
inductive Asked (known : Known) (touched : List String) : Sent → Prop where
  /-- The library knows the answer. -/
  | known {answer : Answer} (hcovers : Covers known touched) :
      Asked known touched (.answered answer)
  /-- An attribute that is not known is read. -/
  | read {key : String} {receive : Reply → Answer × Known} (hnew : known.get? key = none)
      (hknown : ∀ value, (receive (.item value)).2 = known.set key value)
      (hcovers : ∀ value, Covers (known.set key value) touched) :
      Asked known touched (.message (.getAttribute (some key)) receive)
  /-- An attribute is written. -/
  | wrote {key : String} {value : Bytes} {receive : Reply → Answer × Known}
      (hknown : ∀ reply, (receive reply).2 = known.set key (some value))
      (hcovers : Covers (known.set key (some value)) touched) :
      Asked known touched (.message (.setAttribute (some key) value) receive)
  /-- A known attribute is omitted. -/
  | omitted {key : String} {receive : Reply → Answer × Known} (hkey : (known.get? key).isSome)
      (hknown : ∀ reply, (receive reply).2 = known) (hcovers : Covers known touched) :
      Asked known touched (.message (.omitAttribute (some key)) receive)
  /-- A message for the log. -/
  | logged {level : ℤ} {message : String} {receive : Reply → Answer × Known}
      (hknown : ∀ reply, (receive reply).2 = known) (hcovers : Covers known touched) :
      Asked known touched (.message (.log (some level) (some message)) receive)

/-- A read is answered by the library, or asks the server for an attribute that is not known and
then is. -/
theorem asked_getBinary {known : Known} {touched : List String} (h : Covers known touched)
    (key : String) (view : Option Bytes → Response) :
    Asked known (key :: touched) (getBinary known key view) := by
  unfold getBinary
  cases hknown : known.get? key with
  | some value =>
    refine .known fun name hname => ?_
    rcases List.mem_cons.mp hname with rfl | hname
    · rw [hknown]
      rfl
    · exact h name hname
  | none => exact .read hknown (fun _ => rfl) fun value => h.set key value

/-- A call that may be recorded is answered, or is one of the four messages that the record has
something to say about. -/
theorem asked_library (name : String) {known : Known} {touched : List String}
    (h : Covers known touched) {call : ApiCall} (hcall : call.Recorded touched) :
    Asked known (call.touch touched) (library name known call) := by
  cases call with
  | object op =>
    cases op with
    | getBinary key => exact asked_getBinary h key _
    | contains key => exact asked_getBinary h key _
    | setBinary key value =>
      cases value with
      | none => exact .known h
      | some value => exact .wrote (fun _ => rfl) (h.set key (some value))
    | omitAttribute key =>
      refine .omitted (h key hcall) (fun reply => ?_) h
      cases reply with
      | boolean found => cases found <;> rfl
      | _ => rfl
  | log level message =>
    cases hlevel : logLevel level with
    | none =>
      simp only [library, hlevel]
      exact .known h
    | some lval =>
      simp only [library, hlevel]
      exact .logged (fun _ => rfl) h
  | _ => exact hcall.elim

/-- Recorded code sends commands about its object. -/
theorem deterministic_translate (name : String) {code : Code σ} {touched : List String}
    (hcode : code.Recorded touched) {known : Known} (hcovers : Covers known touched) :
    Deterministic (translate name code known) := by
  induction code generalizing touched known with
  | call call next ih =>
    obtain ⟨hcall, hnext⟩ := hcode
    have hasked := asked_library name hcovers hcall
    unfold translate
    generalize library name known call = sent at hasked ⊢
    cases hasked with
    | known hcovers => exact ih _ (hnext _) hcovers
    | read hnew hknown hcovers =>
      refine ⟨rfl, fun reply hreply => ?_⟩
      cases reply <;> simp only [Command.Admits] at hreply
      rename_i value
      exact ih _ (hnext _) (hknown value ▸ hcovers value)
    | wrote hknown hcovers => exact ⟨rfl, fun reply _ => ih _ (hnext _) (hknown reply ▸ hcovers)⟩
    | omitted hkey hknown hcovers =>
      exact ⟨rfl, fun reply _ => ih _ (hnext _) (hknown reply ▸ hcovers)⟩
    | logged hknown hcovers =>
      exact ⟨⟨rfl, rfl⟩, fun reply _ => ih _ (hnext _) (hknown reply ▸ hcovers)⟩
  | returned score memory => exact hcode
  | raised trace => exact ⟨⟨rfl, rfl⟩, fun _ _ => trivial⟩

/-- What is still unknown after a value was learnt is another name, and was unknown before. -/
theorem none_of_set {known : Known} {key name : String} {answer : Option Bytes}
    (h : (known.set key answer).get? name = none) : key ≠ name ∧ known.get? name = none := by
  rw [Dict.get?_set] at h
  split at h
  · cases h
  · rename_i hkey
    exact ⟨hkey, h⟩

/-- The library reads nothing that it knows, so that every read on record is the first one of its
attribute. -/
theorem unknown_of_read (name : String) {code : Code σ} {touched : List String}
    (hcode : code.Recorded touched) {known : Known} (hcovers : Covers known touched)
    {obj : Object m} {key : String} {value : Option Bytes}
    (hread : .read key value ∈ (course (translate name code known) obj).1) :
    known.get? key = none := by
  induction code generalizing touched known obj with
  | call call next ih =>
    obtain ⟨hcall, hnext⟩ := hcode
    have hasked := asked_library name hcovers hcall
    unfold translate at hread
    generalize library name known call = sent at hasked hread
    cases hasked with
    | known hcovers => exact ih _ (hnext _) hcovers hread
    | read hnew hknown hcovers =>
      rcases List.mem_cons.mp hread with heq | hread
      · cases heq
        exact hnew
      · have hrest := ih _ (hnext _) (hknown _ ▸ hcovers _) hread
        rw [hknown] at hrest
        exact (none_of_set hrest).2
    | wrote hknown hcovers =>
      rcases List.mem_cons.mp hread with heq | hread
      · cases heq
      · have hrest := ih _ (hnext _) (hknown _ ▸ hcovers) hread
        rw [hknown] at hrest
        exact (none_of_set hrest).2
    | omitted hkey hknown hcovers =>
      simp only [course, answer_omitAttribute] at hread
      rcases List.mem_cons.mp hread with heq | hread
      · cases heq
      · rw [← hknown (.boolean (obj.contains _))]
        exact ih _ (hnext _) (hknown _ ▸ hcovers) hread
    | logged hknown hcovers =>
      rw [← hknown .nothing]
      exact ih _ (hnext _) (hknown _ ▸ hcovers) hread
  | returned score memory => cases hread
  | raised trace => cases hread

/-- An input is recorded by a read. -/
theorem inputAttrs_replay {events : List Event} {key : String}
    (h : ∀ value, .read key value ∉ events) (st : Object m × FilterResult) :
    (replay st events).2.inputAttrs.get? key = st.2.inputAttrs.get? key := by
  induction events generalizing st with
  | nil => rfl
  | cons event rest ih =>
    have hrest := ih (fun value hvalue => h value (List.mem_cons_of_mem event hvalue))
      (apply st event)
    have happly : (apply st event).2.inputAttrs.get? key = st.2.inputAttrs.get? key := by
      cases event with
      | read name value =>
        have hname : name ≠ key := by
          rintro rfl
          exact h value List.mem_cons_self
        exact Dict.get?_set_of_ne _ _ hname
      | wrote name value => rfl
      | omitted name reply => cases reply <;> rfl
    exact hrest.trans happly

/-- The record keeps the last read of an attribute: the one that no later read of it follows. -/
theorem inputAttrs_of_read {key : String} {value : Option Bytes} {rest : List Event}
    (h : ∀ later, .read key later ∉ rest) (st : Object m × FilterResult) :
    (replay st (.read key value :: rest)).2.inputAttrs.get? key =
      some (value.map (signatureOf m st.1.computeSignature)) :=
  (inputAttrs_replay h _).trans (Dict.get?_set_self _ key _)

/-- Without collisions of the hash, two values with one signature are the same. -/
theorem signatureOf_injective (hm : Function.Injective m.hash) :
    Function.Injective (signatureOf m true) := by
  intro a b h
  have hhash : m.hash a = m.hash b := by simpa [signatureOf] using h
  exact hm hhash

/-- The object gives the recorded answers: what is known is what it holds, and what is not yet
known is what it held at first, which is what the record has. -/
theorem answered_translate (hm : Function.Injective m.hash) (name : String) {code : Code σ}
    {touched : List String} (hcode : code.Recorded touched) {known : Known}
    (hcovers : Covers known touched) {obj₀ obj first : Object m} {result : FilterResult}
    (hsig₀ : obj₀.computeSignature = true) (h₀ : Synced known obj₀) (h : Synced known obj)
    (hfresh : ∀ key, known.get? key = none → obj.attrs.get? key = first.attrs.get? key)
    (hinputs : ∀ key recorded,
      (replay (obj₀, result) (course (translate name code known) obj₀).1).2.inputAttrs.get? key =
        some recorded → (first.attrs.get? key).map (signatureOf m true) = recorded) :
    Answered obj (course (translate name code known) obj₀).1 := by
  induction code generalizing touched known obj₀ obj result with
  | call call next ih =>
    obtain ⟨hcall, hnext⟩ := hcode
    have hasked := asked_library name hcovers hcall
    unfold translate at hinputs ⊢
    generalize library name known call = sent at hasked hinputs ⊢
    cases hasked with
    | known hcovers => exact ih _ (hnext _) hcovers hsig₀ h₀ h hfresh hinputs
    | read hnew hknown hcovers =>
      rename_i key receive
      have hsame := hknown (obj₀.attrs.get? key)
      have hrestCovers := hsame ▸ hcovers (obj₀.attrs.get? key)
      have hnot : ∀ value, .read key value ∉
          (course (translate name (next (receive (.item (obj₀.attrs.get? key))).1)
            (receive (.item (obj₀.attrs.get? key))).2) obj₀).1 := by
        intro value hread
        have hunknown := unknown_of_read name (hnext _) hrestCovers hread
        rw [hsame, Dict.get?_set_self] at hunknown
        cases hunknown
      have hvalue : obj.attrs.get? key = obj₀.attrs.get? key := by
        have hfirst := hinputs key _ (inputAttrs_of_read hnot (obj₀, result))
        rw [hsig₀] at hfirst
        exact (hfresh key hnew).trans (Option.map_injective (signatureOf_injective hm) hfirst)
      refine ⟨hvalue, ih _ (hnext _) hrestCovers hsig₀ ?_ ?_ ?_ hinputs⟩
      · rw [hsame]
        exact h₀.read key
      · rw [hsame, ← hvalue]
        exact h.read key
      · rw [hsame]
        exact fun other hother => hfresh other (none_of_set hother).2
    | wrote hknown hcovers =>
      rename_i key value receive
      have hsame := hknown .nothing
      refine ih _ (hnext _) (hsame ▸ hcovers) hsig₀ ?_ ?_ ?_ hinputs
      · rw [hsame]
        exact h₀.write key value
      · rw [hsame]
        exact h.write key value
      · rw [hsame]
        intro other hother
        obtain ⟨hne, hunknown⟩ := none_of_set hother
        rw [Object.setItem_attrs, Dict.get?_set_of_ne _ _ hne]
        exact hfresh other hunknown
    | omitted hkey hknown hcovers =>
      rename_i key receive
      obtain ⟨answer, hanswer⟩ := Option.isSome_iff_exists.mp hkey
      have hcontains : obj.contains key = obj₀.contains key := by
        rw [Object.contains, Object.contains, ← h key answer hanswer, ← h₀ key answer hanswer]
      have hsame := hknown (.boolean (obj₀.contains key))
      simp only [course, answer_omitAttribute] at hinputs ⊢
      refine ⟨hcontains, ?_⟩
      cases hfound : obj₀.contains key with
      | false =>
        rw [hfound] at hinputs hsame
        exact ih _ (hnext _) (hsame ▸ hcovers) hsig₀ (hsame ▸ h₀) (hsame ▸ h) (hsame ▸ hfresh)
          hinputs
      | true =>
        rw [hfound] at hinputs hsame
        exact ih _ (hnext _) (hsame ▸ hcovers) hsig₀ (hsame ▸ h₀.congr rfl) (hsame ▸ h)
          (hsame ▸ hfresh) hinputs
    | logged hknown hcovers =>
      have hsame := hknown .nothing
      exact ih _ (hnext _) (hsame ▸ hcovers) hsig₀ (hsame ▸ h₀) (hsame ▸ h) (hsame ▸ hfresh) hinputs
  | returned score memory => trivial
  | raised trace => trivial

/-- An object that matches the recorded inputs has each value with the recorded signature, and lacks
what was recorded as missing. -/
theorem getSignature_of_inputsMatch {obj : Object m} {result : FilterResult}
    (h : inputsMatch obj result = true) {key : String} {recorded : Option Signature}
    (hkey : result.inputAttrs.get? key = some recorded) : obj.getSignature key = recorded := by
  have hmem := (find_eq_some_iff result.inputAttrs.nodup key recorded).mp hkey
  have hentry := List.all_eq_true.mp h _ hmem
  cases recorded with
  | none =>
    have habsent : obj.attrs.get? key = none := by simpa [Object.contains] using hentry
    rw [Object.getSignature_eq, habsent]
    rfl
  | some sig =>
    simp only [Bool.and_eq_true, beq_iff_eq] at hentry
    exact hentry.2

/-- The record of recorded code determines its course. -/
theorem determined_translate (hm : Function.Injective m.hash) (name : String) {code : Code Unit}
    (hcode : code.Recorded []) : Determined m (translate name code Dict.empty) := by
  intro obj₀ obj hsig₀ hsig hmatch
  have hinputs : ∀ key recorded,
      (replay (obj₀, .new) (course (translate name code Dict.empty) obj₀).1).2.inputAttrs.get? key =
        some recorded → (obj.attrs.get? key).map (signatureOf m true) = recorded := by
    intro key recorded hrecorded
    have hsigned := getSignature_of_inputsMatch hmatch hrecorded
    rw [Object.getSignature_eq, hsig] at hsigned
    exact hsigned
  exact answered_translate hm name hcode (covers_nil _) hsig₀ (synced_empty obj₀)
    (synced_empty obj) (fun _ _ => rfl) hinputs

/-- Code that may be recorded never hints at large attributes. -/
theorem Code.Recorded.unhinted {code : Code σ} {touched : List String}
    (h : code.Recorded touched) : code.Unhinted := by
  induction code generalizing touched with
  | call call next ih =>
    refine ⟨fun size heq => ?_, fun answer => ih answer (h.2 answer)⟩
    rw [heq] at h
    exact h.1
  | returned score memory => trivial
  | raised trace => trivial

/-- What the calls of the code do to an object is what a result from the cache has. -/
structure LoadedAsCalled (code : Code Unit) (obj loaded : Object m) (result : FilterResult) :
    Prop where
  /-- The score. -/
  score : (run noServices code obj ()).outcome = .ok (result.score, ())
  /-- The attributes. -/
  attrs : (run noServices code obj ()).obj.SameAttrs loaded
  /-- The omissions. -/
  omitAttrs : (run noServices code obj ()).obj.omitAttrs = loaded.omitAttrs

/-- A filter that copies the name of the object, and omits the copy. -/
def labelName : Code Unit := .call (.object (.getBinary "_ObjectID")) fun
  | .object (.value name) => .call (.object (.setBinary "name" (some name))) fun _ =>
    .call (.object (.omitAttribute "name")) fun _ => .returned (.bool true) ()
  | _ => .returned .none ()

/-- The sample filter asks about nothing but its object, and omits the attribute that it has just
written. -/
theorem recorded_labelName : labelName.Recorded [] := by
  refine ⟨trivial, fun answer => ?_⟩
  dsimp only
  split
  · exact ⟨trivial, fun _ => ⟨List.mem_cons_self, fun _ => rfl⟩⟩
  · rfl

/-- An object with the name of another one, and with an attribute that the other does not have. -/
def taggedObject : Object hexMurmur := plainObject.setItem "tag" [116, 0]

end OpenDiamond.FilterLibrary
