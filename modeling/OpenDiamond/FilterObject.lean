import OpenDiamond.FilterFraming
import OpenDiamond.FilterProtocol
import OpenDiamond.Lib.Runs

/-!
# The attribute caches of the filter libraries

While a filter works on an object, its library keeps the attributes it read and
sends writes and omits to the server. The Python library keeps every answer,
also that there is no such attribute, and what it writes. The C library keeps
the values it read and no more.
-/

namespace OpenDiamond.FilterObject

open Lib.OrderedDict Lib.Runs DiamondObject FilterProtocol FilterFraming

variable {m : Murmur} {ε : Type}

/-- A command to the server and its reply; none when the server leaves the
object, and the process loses its connection. -/
def request (svc : Services ε) (server : LoopState m ε) (cmd : Command) :
    Option (Reply × LoopState m ε) :=
  match handle svc server cmd with
  | .reply r server => some (r, server)
  | _ => none

/-- The value the object on the server has under the name. -/
def serverValue (server : LoopState m ε) (key : String) : Option Bytes := server.obj.attrs.get? key

/-- The server answers a read with the value it holds, and leaves the object alone. -/
theorem request_getAttribute (svc : Services ε) (server : LoopState m ε) (key : String) :
    ∃ server', request svc server (.getAttribute (some key)) =
      some (.item (serverValue server key), server') ∧ server'.obj = server.obj := by
  simp only [request, handle, serverValue]
  cases server.obj.attrs.get? key <;> exact ⟨_, rfl, rfl⟩

/-- A write reaches the object of the server. -/
theorem request_setAttribute (svc : Services ε) (server : LoopState m ε) (key : String)
    (value : Bytes) :
    ∃ server', request svc server (.setAttribute (some key) value) = some (.nothing, server') ∧
      server'.obj = server.obj.setItem key value :=
  ⟨_, rfl, rfl⟩

/-- An omission is confirmed exactly for an attribute that is there, and changes none. -/
theorem request_omitAttribute (svc : Services ε) (server : LoopState m ε) (key : String) :
    ∃ server', request svc server (.omitAttribute (some key)) =
      some (.boolean (serverValue server key).isSome, server') ∧
      server'.obj.attrs = server.obj.attrs := by
  simp only [request, handle, serverValue]
  cases homit : server.obj.omitAttr key with
  | none =>
    have hnone : server.obj.contains key = false := by
      by_contra hcontains
      simp [Object.omitAttr, hcontains] at homit
    have hmissing : (server.obj.attrs.get? key).isSome = false := hnone
    rw [hmissing]
    exact ⟨_, rfl, rfl⟩
  | some obj =>
    obtain ⟨hcontains, rfl⟩ := Object.omitAttr_eq_some.mp homit
    have hfound : (server.obj.attrs.get? key).isSome = true := hcontains
    rw [hfound]
    exact ⟨_, rfl, rfl⟩

/-- What a library function answers. -/
inductive Response where
  /-- The value, or what `lf_read_attr` put into the buffer. -/
  | value (data : Bytes)
  | boolean (found : Bool)
  /-- A write or an omit that succeeded. -/
  | done
  /-- `KeyError`, or `ENOENT`. -/
  | missing
  /-- `ValueError`, or `EINVAL`. -/
  | invalid
  /-- `ENOMEM` with the size that is needed. -/
  | tooSmall (size : ℕ)
  /-- `LingeringObjectError`. -/
  | lingering
  deriving DecidableEq

/-- A value that may be absent, as an answer. -/
def Response.ofValue : Option Bytes → Response
  | some data => .value data
  | none => .missing

/-! ## The Python library -/

/-- A `_DiamondObject`, with the server at the other end of its connection. -/
structure PyObject (m : Murmur) (ε : Type) where
  /-- `_attrs`: the answers that are known, none for an absent attribute. -/
  attrs : Dict String (Option Bytes)
  /-- `_valid`. -/
  valid : Bool
  /-- The server's side of the connection. -/
  server : LoopState m ε

/-- `_DiamondObject.__init__`. -/
def PyObject.new (server : LoopState m ε) : PyObject m ε := ⟨Dict.empty, true, server⟩

/-- What a filter can do with a `_DiamondObject`. -/
inductive PyOp where
  | getBinary (key : String)
  | contains (key : String)
  | setBinary (key : String) (value : Option Bytes)
  | omitAttribute (key : String)

namespace PyObject

/-- `_get_attribute`. -/
def getAttribute (svc : Services ε) (obj : PyObject m ε) (key : String) :
    Option (Option Bytes × PyObject m ε) :=
  match request svc obj.server (.getAttribute (some key)) with
  | some (.item value, server) => some (value, { obj with server })
  | _ => none

/-- `get_binary`; none for the `KeyError`. -/
def getBinary (svc : Services ε) (obj : PyObject m ε) (key : String) :
    Option (Option Bytes × PyObject m ε) :=
  match obj.attrs.get? key with
  | some known => some (known, obj)
  | none =>
    match obj.getAttribute svc key with
    | some (value, obj) => some (value, { obj with attrs := obj.attrs.set key value })
    | none => none

/-- One call of the filter: the answer and the object after it; none when the
connection is lost. -/
def perform (svc : Services ε) (obj : PyObject m ε) (op : PyOp) :
    Option (Response × PyObject m ε) :=
  -- `check_valid` comes first in all of them
  if obj.valid = false then some (.lingering, obj)
  else
    match op with
    | .getBinary key =>
      (obj.getBinary svc key).map fun found => (.ofValue found.1, found.2)
    | .contains key =>
      (obj.getBinary svc key).map fun found => (.boolean found.1.isSome, found.2)
    | .setBinary _ none => some (.invalid, obj)
    | .setBinary key (some value) =>
      (request svc obj.server (.setAttribute (some key) value)).map fun sent =>
        (.done, { obj with server := sent.2, attrs := obj.attrs.set key (some value) })
    | .omitAttribute key =>
      match request svc obj.server (.omitAttribute (some key)) with
      | some (.boolean true, server) => some (.done, { obj with server })
      | some (_, server) => some (.missing, { obj with server })
      | none => none

/-- The object after one call. -/
def step (svc : Services ε) (obj : PyObject m ε) (op : PyOp) : Option (PyObject m ε) :=
  (obj.perform svc op).map Prod.snd

/-- The answer when every read is sent to the server. -/
def uncached (obj : PyObject m ε) : PyOp → Response
  | .getBinary key => .ofValue (serverValue obj.server key)
  | .contains key => .boolean (serverValue obj.server key).isSome
  | .setBinary _ value => if value.isSome then .done else .invalid
  | .omitAttribute key => if (serverValue obj.server key).isSome then .done else .missing

/-- The call answers what the server holds at that moment. -/
def Coherent (svc : Services ε) (obj : PyObject m ε) (op : PyOp) : Prop :=
  ∃ obj', obj.perform svc op = some (obj.uncached op, obj')

/-- The object is in play, and every known answer is the one the server would
give. -/
structure Synced (obj : PyObject m ε) : Prop where
  /-- `invalidate` was not called. -/
  valid : obj.valid = true
  /-- What is known is what the server holds. -/
  known : ∀ key answer, obj.attrs.get? key = some answer → answer = serverValue obj.server key

/-- A new object knows nothing, so that all it knows is right. -/
theorem synced_new (server : LoopState m ε) : Synced (new server) :=
  ⟨rfl, fun key answer h => by simp [new] at h⟩

/-- A change on the server that leaves the values alone keeps what is known. -/
theorem Synced.of_attrs {obj : PyObject m ε} (h : Synced obj) {server : LoopState m ε}
    (hattrs : server.obj.attrs = obj.server.obj.attrs) : Synced { obj with server } := by
  refine ⟨h.valid, fun key answer hknown => ?_⟩
  rw [serverValue, hattrs]
  exact h.known key answer hknown

/-- A read answers what the server holds, and what it adds is that answer. -/
theorem Synced.getBinary {obj : PyObject m ε} (h : Synced obj) (svc : Services ε) (key : String) :
    ∃ obj', obj.getBinary svc key = some (serverValue obj.server key, obj') ∧ Synced obj' := by
  unfold PyObject.getBinary
  cases hknown : obj.attrs.get? key with
  | some answer =>
    rw [← h.known key answer hknown]
    exact ⟨obj, rfl, h⟩
  | none =>
    obtain ⟨server, hrequest, hobj⟩ := request_getAttribute svc obj.server key
    have hsame := h.of_attrs (congrArg Object.attrs hobj)
    simp only [getAttribute, hrequest]
    refine ⟨_, rfl, h.valid, fun key' answer hanswer => ?_⟩
    rw [Dict.get?_set] at hanswer
    split at hanswer
    · rename_i hkey
      cases hanswer
      rw [← hkey, serverValue, serverValue, hobj]
    · exact hsame.known key' answer hanswer

/-- Every call answers as if it were sent to the server, and keeps the cache in
step with it. -/
theorem Synced.perform {obj : PyObject m ε} (h : Synced obj) (svc : Services ε) (op : PyOp) :
    ∃ obj', obj.perform svc op = some (obj.uncached op, obj') ∧ Synced obj' := by
  have hvalid : ¬ obj.valid = false := by simp [h.valid]
  unfold PyObject.perform
  rw [if_neg hvalid]
  cases op with
  | getBinary key =>
    obtain ⟨obj', hget, hsynced⟩ := h.getBinary svc key
    exact ⟨obj', by simp only [hget, Option.map_some, uncached], hsynced⟩
  | contains key =>
    obtain ⟨obj', hget, hsynced⟩ := h.getBinary svc key
    exact ⟨obj', by simp only [hget, Option.map_some, uncached], hsynced⟩
  | setBinary key value =>
    cases value with
    | none => exact ⟨obj, rfl, h⟩
    | some value =>
      obtain ⟨server, hrequest, hobj⟩ := request_setAttribute svc obj.server key value
      simp only [hrequest, Option.map_some]
      refine ⟨_, rfl, h.valid, fun key' answer hanswer => ?_⟩
      rw [serverValue, hobj, Object.setItem_attrs, Dict.get?_set]
      rw [Dict.get?_set] at hanswer
      split at hanswer
      · rename_i hkey
        cases hanswer
        rw [if_pos hkey]
      · rename_i hkey
        rw [if_neg hkey]
        exact h.known key' answer hanswer
  | omitAttribute key =>
    obtain ⟨server, hrequest, hattrs⟩ := request_omitAttribute svc obj.server key
    have hsynced := h.of_attrs hattrs
    simp only [hrequest, uncached]
    cases hvalue : (serverValue obj.server key).isSome with
    | true => exact ⟨_, rfl, hsynced⟩
    | false => exact ⟨_, rfl, hsynced⟩

/-- A call keeps what is known in step with the server, as a write is remembered too. -/
theorem Synced.step {svc : Services ε} {obj obj' : PyObject m ε} {op : PyOp} (h : Synced obj)
    (hstep : obj.step svc op = some obj') : Synced obj' := by
  obtain ⟨after, hperform, hsynced⟩ := h.perform svc op
  rw [PyObject.step, hperform] at hstep
  cases hstep
  exact hsynced

end PyObject

/-! ## The C library -/

/-- `MAX_ATTR_NAME`. -/
def maxAttrName : ℕ := 128

/-- `strlen(name) + 1 > MAX_ATTR_NAME`. -/
def tooLong (name : CString) : Bool := maxAttrName < name.bytes.length + 1

/-- The name as the server decodes it; none when it is not UTF-8. -/
def nameText (name : CString) : Option String := String.fromUTF8? ⟨name.bytes.toArray⟩

/-- An `ohandle`, with the server at the other end of the pipes. -/
structure OHandle (m : Murmur) (ε : Type) where
  /-- `attributes`: the values that were read. -/
  attributes : Dict Bytes Bytes
  /-- The server's side of the connection. -/
  server : LoopState m ε

/-- `lf_obj_handle_new`. -/
def OHandle.new (server : LoopState m ε) : OHandle m ε := ⟨Dict.empty, server⟩

/-- What a filter can do with an `ohandle`. -/
inductive COp where
  /-- `lf_read_attr` with the size of the buffer. -/
  | readAttr (name : CString) (len : ℕ)
  | refAttr (name : CString)
  | writeAttr (name : CString) (data : Bytes)
  | omitAttr (name : CString)

/-- The name a call is about. -/
def COp.name : COp → CString
  | .readAttr name _ => name
  | .refAttr name => name
  | .writeAttr name _ => name
  | .omitAttr name => name

/-- `lf_read_attr` on what was found, for a buffer of the size. -/
def readResult (len : ℕ) : Option Bytes → Response
  | none => .missing
  | some data => if len < data.length then .tooSmall data.length else .value data

namespace OHandle

/-- The value under the name on the server. -/
def current (handle : OHandle m ε) (name : CString) : Option Bytes :=
  (nameText name).bind (serverValue handle.server)

/-- `get_attribute`: the attribute, none inside for the null pointer. None when
the process ends: the server does not take the name, or the length of the value
is no `int`. -/
def getAttribute (svc : Services ε) (handle : OHandle m ε) (name : CString) :
    Option (Option Bytes × OHandle m ε) :=
  match handle.attributes.get? name.bytes with
  | some data => some (some data, handle)
  | none =>
    match request svc handle.server (.getAttribute (nameText name)) with
    | some (.item none, server) => some (none, { handle with server })
    | some (.item (some data), server) =>
      if intMax < data.length then none
      else some (some data, ⟨handle.attributes.set name.bytes data, server⟩)
    | _ => none

/-- `lf_read_attr`. -/
def lfReadAttr (svc : Services ε) (handle : OHandle m ε) (name : CString) (len : ℕ) :
    Option (Response × OHandle m ε) :=
  if tooLong name then some (.invalid, handle)
  else (handle.getAttribute svc name).map fun found => (readResult len found.1, found.2)

/-- `lf_ref_attr`. -/
def lfRefAttr (svc : Services ε) (handle : OHandle m ε) (name : CString) :
    Option (Response × OHandle m ε) :=
  if tooLong name then some (.invalid, handle)
  else (handle.getAttribute svc name).map fun found => (.ofValue found.1, found.2)

/-- What `lf_send_binary` sends of a value: its length is passed as an `int`, so
that of 2^32 bytes or more only a beginning is sent. -/
def sentBinary (data : Bytes) : Bytes := data.take (cInt data.length).toNat

/-- `lf_write_attr`. A value that was read stays in `attributes`. -/
def lfWriteAttr (svc : Services ε) (handle : OHandle m ε) (name : CString) (data : Bytes) :
    Option (Response × OHandle m ε) :=
  if tooLong name then some (.invalid, handle)
  else
    match lfSendBinary data with
    | .error _ => none
    | .ok _ =>
      (request svc handle.server (.setAttribute (nameText name) (sentBinary data))).map fun sent =>
        (.done, { handle with server := sent.2 })

/-- `lf_omit_attr`. -/
def lfOmitAttr (svc : Services ε) (handle : OHandle m ε) (name : CString) :
    Option (Response × OHandle m ε) :=
  if tooLong name then some (.invalid, handle)
  else
    match request svc handle.server (.omitAttribute (nameText name)) with
    | some (.boolean true, server) => some (.done, { handle with server })
    | some (_, server) => some (.missing, { handle with server })
    | none => none

/-- One call of the filter: the answer and the handle after it; none when the
process ends. -/
def perform (svc : Services ε) (handle : OHandle m ε) : COp → Option (Response × OHandle m ε)
  | .readAttr name len => handle.lfReadAttr svc name len
  | .refAttr name => handle.lfRefAttr svc name
  | .writeAttr name data => handle.lfWriteAttr svc name data
  | .omitAttr name => handle.lfOmitAttr svc name

/-- The answer when every read is sent to the server. -/
def uncached (handle : OHandle m ε) (op : COp) : Response :=
  if tooLong op.name then .invalid
  else
    match op with
    | .readAttr name len => readResult len (handle.current name)
    | .refAttr name => .ofValue (handle.current name)
    | .writeAttr _ _ => .done
    | .omitAttr name => if (handle.current name).isSome then .done else .missing

end OHandle

/-- A handle with what the filter wrote to the object so far: the last value
for each name. -/
structure CHistory (m : Murmur) (ε : Type) where
  /-- The handle. -/
  handle : OHandle m ε
  /-- The last value written under each name. -/
  written : Dict Bytes Bytes

namespace CHistory

/-- The handle of a new object. -/
def new (server : LoopState m ε) : CHistory m ε := ⟨.new server, Dict.empty⟩

/-- What the call writes, as far as it is sent. -/
def record (written : Dict Bytes Bytes) (op : COp) : Dict Bytes Bytes :=
  match op with
  | .writeAttr name data =>
    if tooLong name then written else written.set name.bytes (OHandle.sentBinary data)
  | _ => written

/-- The handle and the writes after one call. -/
def step (svc : Services ε) (h : CHistory m ε) (op : COp) : Option (CHistory m ε) :=
  (h.handle.perform svc op).map fun result => ⟨result.2, record h.written op⟩

/-- The call, if the process does not end, answers what the server holds at
that moment. -/
def Coherent (svc : Services ε) (h : CHistory m ε) (op : COp) : Prop :=
  ∀ response handle, h.handle.perform svc op = some (response, handle) →
    response = h.handle.uncached op

/-- A read of a name that was read before and written since gives for the
value that was read the answer it gives for the value that was written. -/
def NotRewritten (h : CHistory m ε) (op : COp) : Prop :=
  tooLong op.name = false →
    ∀ data value, h.handle.attributes.get? op.name.bytes = some data →
      h.written.get? op.name.bytes = some value →
      match op with
      | .readAttr _ len => readResult len (some data) = readResult len (some value)
      | .refAttr _ => data = value
      | _ => True

/-- What the cache and the writes say about the server. -/
structure Known (h : CHistory m ε) : Prop where
  /-- The server holds what was written last. -/
  written : ∀ name value, h.written.get? name.bytes = some value →
    h.handle.current name = some value
  /-- It holds what was read, when nothing was written under the name. -/
  read : ∀ name data, h.handle.attributes.get? name.bytes = some data →
    h.written.get? name.bytes = none → h.handle.current name = some data

/-- A new handle knows nothing. -/
theorem known_new (server : LoopState m ε) : Known (new server) :=
  ⟨fun name value h => by simp [new] at h,
    fun name data h => by simp [new, OHandle.new] at h⟩

end CHistory

/-- Two names that the server decodes to the same text are the same. -/
theorem nameText_injective {name name' : CString} {text : String} (h : nameText name = some text)
    (h' : nameText name' = some text) : name.bytes = name'.bytes := by
  have hbytes : ∀ other : CString, nameText other = some text →
      text.toByteArray = ⟨other.bytes.toArray⟩ := by
    intro other hother
    unfold nameText String.fromUTF8? at hother
    split at hother
    · cases hother
      rfl
    · cases hother
  have hsame := (hbytes name h).symm.trans (hbytes name' h')
  simpa using hsame

namespace OHandle

/-- A name that was not read before is looked up on the server. -/
theorem getAttribute_miss {svc : Services ε} {handle handle' : OHandle m ε} {name : CString}
    {found : Option Bytes} (hmiss : handle.attributes.get? name.bytes = none)
    (h : handle.getAttribute svc name = some (found, handle')) :
    found = handle.current name ∧ handle'.server.obj = handle.server.obj ∧
      ((found = none ∧ handle'.attributes = handle.attributes) ∨
        ∃ data, found = some data ∧ handle'.attributes = handle.attributes.set name.bytes data) := by
  unfold getAttribute at h
  simp only [hmiss] at h
  cases htext : nameText name with
  | none =>
    rw [htext] at h
    simp [request, FilterProtocol.handle] at h
  | some text =>
    obtain ⟨server, hrequest, hobj⟩ := request_getAttribute svc handle.server text
    simp only [htext, hrequest] at h
    simp only [current, htext, Option.bind_some]
    cases hvalue : serverValue handle.server text with
    | none =>
      simp only [hvalue, Option.some.injEq, Prod.mk.injEq] at h
      obtain ⟨rfl, rfl⟩ := h
      exact ⟨rfl, hobj, Or.inl ⟨rfl, rfl⟩⟩
    | some data =>
      simp only [hvalue] at h
      split at h
      · cases h
      · cases h
        exact ⟨rfl, hobj, Or.inr ⟨data, rfl, rfl⟩⟩

/-- A value that the handle has is not asked for again. -/
theorem getAttribute_hit {svc : Services ε} {handle : OHandle m ε} {name : CString} {data : Bytes}
    (hit : handle.attributes.get? name.bytes = some data) :
    handle.getAttribute svc name = some (some data, handle) := by
  unfold getAttribute
  rw [hit]

/-- What the server holds depends on its attributes only. -/
theorem current_congr {handle handle' : OHandle m ε}
    (h : handle'.server.obj.attrs = handle.server.obj.attrs) (name : CString) :
    handle'.current name = handle.current name := by
  have hvalues : serverValue handle'.server = serverValue handle.server := by
    funext key
    rw [serverValue, serverValue, h]
  rw [current, current, hvalues]

/-- A read that does not end the process answers with what it found. -/
theorem lfReadAttr_eq_some {svc : Services ε} {handle handle' : OHandle m ε} {name : CString}
    {len : ℕ} {response : Response} (hshort : tooLong name = false)
    (h : handle.lfReadAttr svc name len = some (response, handle')) :
    ∃ found, handle.getAttribute svc name = some (found, handle') ∧
      response = readResult len found := by
  simp only [lfReadAttr, hshort, Bool.false_eq_true, if_false] at h
  obtain ⟨⟨found, after⟩, hget, hpair⟩ := Option.map_eq_some_iff.mp h
  cases hpair
  exact ⟨found, hget, rfl⟩

/-- A reference to an attribute is the attribute itself, for a name that is short enough. -/
theorem lfRefAttr_eq_some {svc : Services ε} {handle handle' : OHandle m ε} {name : CString}
    {response : Response} (hshort : tooLong name = false)
    (h : handle.lfRefAttr svc name = some (response, handle')) :
    ∃ found, handle.getAttribute svc name = some (found, handle') ∧
      response = .ofValue found := by
  simp only [lfRefAttr, hshort, Bool.false_eq_true, if_false] at h
  obtain ⟨⟨found, after⟩, hget, hpair⟩ := Option.map_eq_some_iff.mp h
  cases hpair
  exact ⟨found, hget, rfl⟩

/-- A write that does not end the process reaches the server's object. -/
theorem lfWriteAttr_eq_some {svc : Services ε} {handle handle' : OHandle m ε} {name : CString}
    {data : Bytes} {response : Response} (hshort : tooLong name = false)
    (h : handle.lfWriteAttr svc name data = some (response, handle')) :
    response = .done ∧ ∃ text server, nameText name = some text ∧
      server.obj = handle.server.obj.setItem text (sentBinary data) ∧
        handle' = { handle with server } := by
  simp only [lfWriteAttr, hshort, Bool.false_eq_true, if_false] at h
  cases hsend : lfSendBinary data with
  | error stop =>
    rw [hsend] at h
    cases h
  | ok bytes =>
    rw [hsend] at h
    obtain ⟨⟨reply, server⟩, hrequest, hpair⟩ := Option.map_eq_some_iff.mp h
    cases hpair
    cases htext : nameText name with
    | none =>
      rw [htext] at hrequest
      cases hrequest
    | some text =>
      obtain ⟨server', hset, hobj⟩ := request_setAttribute svc handle.server text (sentBinary data)
      rw [htext, hset] at hrequest
      cases hrequest
      exact ⟨rfl, text, _, rfl, hobj, rfl⟩

/-- An omit tells whether there is such an attribute and leaves the values. -/
theorem lfOmitAttr_eq_some {svc : Services ε} {handle handle' : OHandle m ε} {name : CString}
    {response : Response} (hshort : tooLong name = false)
    (h : handle.lfOmitAttr svc name = some (response, handle')) :
    response = (if (handle.current name).isSome then .done else .missing) ∧
      handle'.server.obj.attrs = handle.server.obj.attrs ∧
      handle'.attributes = handle.attributes := by
  simp only [lfOmitAttr, hshort, Bool.false_eq_true, if_false] at h
  cases htext : nameText name with
  | none =>
    rw [htext] at h
    cases h
  | some text =>
    obtain ⟨server, hrequest, hattrs⟩ := request_omitAttribute svc handle.server text
    rw [htext, hrequest] at h
    rw [current, htext, Option.bind_some]
    cases hvalue : (serverValue handle.server text).isSome with
    | true =>
      rw [hvalue] at h
      cases h
      exact ⟨rfl, hattrs, rfl⟩
    | false =>
      rw [hvalue] at h
      cases h
      exact ⟨rfl, hattrs, rfl⟩

end OHandle

namespace CHistory

/-- A change of the handle that leaves the server's values alone and adds to the
cache what the server holds. -/
theorem Known.of_read {h : CHistory m ε} (hknown : Known h) {handle : OHandle m ε}
    (hattrs : handle.server.obj.attrs = h.handle.server.obj.attrs)
    (hread : ∀ name data, handle.attributes.get? name.bytes = some data →
      h.handle.attributes.get? name.bytes = some data ∨ h.handle.current name = some data) :
    Known ⟨handle, h.written⟩ := by
  refine ⟨fun name value hwritten => ?_, fun name data hcached hnone => ?_⟩
  · rw [OHandle.current_congr hattrs]
    exact hknown.written name value hwritten
  · rw [OHandle.current_congr hattrs]
    rcases hread name data hcached with hold | hnew
    · exact hknown.read name data hold hnone
    · exact hnew

/-- What a read adds to the handle is what the server holds. -/
theorem Known.getAttribute {h : CHistory m ε} (hknown : Known h) {svc : Services ε}
    {name : CString} {found : Option Bytes} {handle : OHandle m ε}
    (hget : h.handle.getAttribute svc name = some (found, handle)) :
    Known ⟨handle, h.written⟩ := by
  cases hcached : h.handle.attributes.get? name.bytes with
  | some data =>
    rw [OHandle.getAttribute_hit hcached] at hget
    cases hget
    exact hknown
  | none =>
    obtain ⟨hfound, hobj, hattributes⟩ := OHandle.getAttribute_miss hcached hget
    refine hknown.of_read (congrArg Object.attrs hobj) fun other data hother => ?_
    rcases hattributes with ⟨-, hsame⟩ | ⟨value, hvalue, hset⟩
    · rw [hsame] at hother
      exact Or.inl hother
    · rw [hset, Dict.get?_set] at hother
      split at hother
      · rename_i hname
        cases hother
        refine Or.inr ?_
        have hsame : h.handle.current other = h.handle.current name := by
          simp only [OHandle.current, nameText, hname]
        rw [hsame, ← hfound, hvalue]
      · exact Or.inl hother

/-- A write changes what the server holds under the name, and under no other. -/
theorem Known.write {h : CHistory m ε} (hknown : Known h) {name : CString} {text : String}
    (htext : nameText name = some text) {data : Bytes} {server : LoopState m ε}
    (hobj : server.obj = h.handle.server.obj.setItem text data) :
    Known ⟨{ h.handle with server }, h.written.set name.bytes data⟩ := by
  have hcurrent : ∀ other : CString, ({ h.handle with server } : OHandle m ε).current other =
      if name.bytes = other.bytes then some data else h.handle.current other := by
    intro other
    simp only [OHandle.current]
    cases hother : nameText other with
    | none =>
      have hne : name.bytes ≠ other.bytes := by
        intro heq
        rw [nameText, ← heq] at hother
        rw [nameText, hother] at htext
        cases htext
      simp [hne]
    | some text' =>
      simp only [Option.bind_some, serverValue, hobj, Object.setItem_attrs, Dict.get?_set]
      by_cases heq : name.bytes = other.bytes
      · have hsame : text = text' := by
          rw [nameText, heq, ← nameText, hother] at htext
          exact (Option.some.inj htext).symm
        rw [if_pos hsame, if_pos heq]
      · have hne : text ≠ text' := by
          rintro rfl
          exact heq (nameText_injective htext hother)
        rw [if_neg hne, if_neg heq]
  refine ⟨fun other value hwritten => ?_, fun other value hcached hnone => ?_⟩
  · rw [hcurrent]
    rw [Dict.get?_set] at hwritten
    split at hwritten
    · rename_i heq
      rw [if_pos heq]
      exact hwritten
    · rename_i heq
      rw [if_neg heq]
      exact hknown.written other value hwritten
  · rw [hcurrent]
    rw [Dict.get?_set] at hnone
    split at hnone
    · cases hnone
    · rename_i heq
      rw [if_neg heq]
      exact hknown.read other value hcached hnone

/-- A name that is too long changes nothing. -/
theorem perform_tooLong {svc : Services ε} {handle : OHandle m ε} {op : COp}
    (hlong : tooLong op.name = true) : handle.perform svc op = some (.invalid, handle) := by
  cases op <;> simp only [COp.name] at hlong <;>
    simp only [OHandle.perform, OHandle.lfReadAttr, OHandle.lfRefAttr, OHandle.lfWriteAttr,
      OHandle.lfOmitAttr, hlong, if_true]

/-- Every call keeps what the cache and the writes say about the server. A write changes the server,
and what was read before of that name is not relied upon any more. -/
theorem Known.step {svc : Services ε} {h h' : CHistory m ε} {op : COp} (hknown : Known h)
    (hstep : h.step svc op = some h') : Known h' := by
  obtain ⟨⟨response, handle⟩, hperform, rfl⟩ := Option.map_eq_some_iff.mp hstep
  cases hlong : tooLong op.name with
  | true =>
    rw [perform_tooLong hlong] at hperform
    cases hperform
    have hrecord : record h.written op = h.written := by
      cases op with
      | writeAttr name data =>
        simp only [COp.name] at hlong
        simp only [record, hlong, if_true]
      | _ => rfl
    rw [hrecord]
    exact hknown
  | false =>
    cases op with simp only [COp.name, OHandle.perform] at hlong hperform
    | readAttr name len =>
      obtain ⟨found, hget⟩ := OHandle.lfReadAttr_eq_some hlong hperform
      exact hknown.getAttribute hget.1
    | refAttr name =>
      obtain ⟨found, hget⟩ := OHandle.lfRefAttr_eq_some hlong hperform
      exact hknown.getAttribute hget.1
    | writeAttr name data =>
      obtain ⟨-, text, server, htext, hobj, rfl⟩ := OHandle.lfWriteAttr_eq_some hlong hperform
      simp only [record, hlong, Bool.false_eq_true, if_false]
      exact hknown.write htext hobj
    | omitAttr name =>
      obtain ⟨-, hattrs, hattributes⟩ := OHandle.lfOmitAttr_eq_some hlong hperform
      refine hknown.of_read hattrs fun other data hother => Or.inl ?_
      rw [← hattributes]
      exact hother

/-- A read that does not end the process answers with what it found in the cache or on the
server. It answers with the current value exactly when a cached and a rewritten value give the
same answer. -/
theorem coherent_read_iff {svc : Services ε} {h : CHistory m ε} (hknown : Known h)
    (name : CString) (answer : Option Bytes → Response) :
    (∀ found handle, h.handle.getAttribute svc name = some (found, handle) →
        answer found = answer (h.handle.current name)) ↔
      ∀ data value, h.handle.attributes.get? name.bytes = some data →
        h.written.get? name.bytes = some value → answer (some data) = answer (some value) := by
  constructor
  · intro hread data value hcached hwritten
    have hanswer := hread _ _ (OHandle.getAttribute_hit hcached)
    rwa [hknown.written name value hwritten] at hanswer
  · intro hsame found handle hget
    cases hcached : h.handle.attributes.get? name.bytes with
    | none => rw [(OHandle.getAttribute_miss hcached hget).1]
    | some data =>
      rw [OHandle.getAttribute_hit hcached] at hget
      cases hget
      cases hwritten : h.written.get? name.bytes with
      | none => rw [hknown.read name data hcached hwritten]
      | some value =>
        rw [hknown.written name value hwritten]
        exact hsame data value hcached hwritten

/-- A read is coherent when what it found answers like what the server holds. -/
theorem coherent_of_read {svc : Services ε} {h : CHistory m ε} {op : COp} {name : CString}
    {answer : Option Bytes → Response}
    (hperform : h.handle.perform svc op =
      (h.handle.getAttribute svc name).map fun found => (answer found.1, found.2))
    (huncached : h.handle.uncached op = answer (h.handle.current name)) :
    Coherent svc h op ↔ ∀ found handle,
      h.handle.getAttribute svc name = some (found, handle) →
        answer found = answer (h.handle.current name) := by
  simp only [Coherent, hperform, huncached, Option.map_eq_some_iff, Prod.mk.injEq, Prod.exists]
  constructor
  · exact fun hall found handle hget => hall _ handle ⟨found, handle, hget, rfl, rfl⟩
  · rintro hall response handle ⟨found, after, hget, rfl, rfl⟩
    exact hall found after hget

/-- A call answers what the server holds exactly when it does not read again a
name that was read and then written. -/
theorem coherent_iff {svc : Services ε} {h : CHistory m ε} (hknown : Known h) (op : COp) :
    Coherent svc h op ↔ NotRewritten h op := by
  cases hlong : tooLong op.name with
  | true =>
    have hcoherent : Coherent svc h op := by
      intro response handle hperform
      rw [perform_tooLong hlong] at hperform
      cases hperform
      simp only [OHandle.uncached, hlong, if_true]
    exact iff_of_true hcoherent fun hshort => by simp [hlong] at hshort
  | false =>
    cases op with simp only [COp.name] at hlong
    | readAttr name len =>
      have hperform : h.handle.perform svc (.readAttr name len) =
          (h.handle.getAttribute svc name).map fun found => (readResult len found.1, found.2) := by
        simp only [OHandle.perform, OHandle.lfReadAttr, hlong, Bool.false_eq_true, if_false]
      have huncached : h.handle.uncached (.readAttr name len) =
          readResult len (h.handle.current name) := by
        simp only [OHandle.uncached, COp.name, hlong, Bool.false_eq_true, if_false]
      exact (coherent_of_read hperform huncached).trans
        ((coherent_read_iff hknown name _).trans ⟨fun h _ => h, fun h => h hlong⟩)
    | refAttr name =>
      have hperform : h.handle.perform svc (.refAttr name) =
          (h.handle.getAttribute svc name).map fun found => (.ofValue found.1, found.2) := by
        simp only [OHandle.perform, OHandle.lfRefAttr, hlong, Bool.false_eq_true, if_false]
      have huncached : h.handle.uncached (.refAttr name) = .ofValue (h.handle.current name) := by
        simp only [OHandle.uncached, COp.name, hlong, Bool.false_eq_true, if_false]
      refine (coherent_of_read hperform huncached).trans
        ((coherent_read_iff hknown name _).trans ⟨fun h _ data value hdata hvalue => ?_,
          fun h data value hdata hvalue => ?_⟩)
      · exact Response.value.inj (h data value hdata hvalue)
      · exact congrArg Response.value (h hlong data value hdata hvalue)
    | writeAttr name data =>
      refine iff_of_true (fun response handle hperform => ?_) fun _ _ _ _ _ => trivial
      rw [OHandle.perform] at hperform
      simp only [OHandle.uncached, COp.name, hlong, Bool.false_eq_true, if_false]
      exact (OHandle.lfWriteAttr_eq_some hlong hperform).1
    | omitAttr name =>
      refine iff_of_true (fun response handle hperform => ?_) fun _ _ _ _ _ => trivial
      rw [OHandle.perform] at hperform
      simp only [OHandle.uncached, COp.name, hlong, Bool.false_eq_true, if_false]
      exact (OHandle.lfOmitAttr_eq_some hlong hperform).1

end CHistory

/-! ## Runs -/

/-- The name of one letter. -/
def sampleName : CString := ⟨[120], by decide⟩

/-- An object with one attribute of that name. -/
def sampleServer : LoopState hexMurmur Unit :=
  ⟨(Object.blank hexMurmur "a" none none true).setItem "x" [1], .new, (), true⟩

end OpenDiamond.FilterObject
