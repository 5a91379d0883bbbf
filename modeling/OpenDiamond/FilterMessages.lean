import OpenDiamond.FilterFraming
import OpenDiamond.Lib.Mutex

/-!
# Messages on the pipe of a filter

The main thread of a filter sends its commands while a second thread forwards what the filter
prints. Each takes the output lock for a whole message, which it writes in many pieces. The
server reads a tag and then, by the tag, items and arrays. It reads the messages of both
threads, whole and in the order in which the lock was given up.
-/

namespace OpenDiamond.FilterMessages

open Lib.Runs Lib.Processes Lib.Mutex Lib.Streams Lib.Framing Lib.Decimal DiamondObject
  FilterFraming

/-! ## The filter library -/

/-- What the Python library sends with `send_message`, the arguments as encoded. -/
inductive Message where
  | initSuccess
  | getAttribute (key : Bytes)
  | setAttribute (key value : Bytes)
  | omitAttribute (key : Bytes)
  | getSessionVariables (names : List Bytes)
  | updateSessionVariables (names values : List Bytes)
  | log (level message : Bytes)
  /-- What `_StdoutThread` read from the pipe that stands for the standard output. -/
  | stdout (buf : Bytes)
  | result (score : Bytes)
  | ensureResource (scope rtype : Bytes) (params : List Bytes)
  | hintLargeAttribute (size : Bytes)
  deriving DecidableEq

namespace Message

/-- The tag of the call. -/
def name : Message → String
  | initSuccess => "init-success"
  | getAttribute _ => "get-attribute"
  | setAttribute _ _ => "set-attribute"
  | omitAttribute _ => "omit-attribute"
  | getSessionVariables _ => "get-session-variables"
  | updateSessionVariables _ _ => "update-session-variables"
  | log _ _ => "log"
  | stdout _ => "stdout"
  | result _ => "result"
  | ensureResource _ _ _ => "ensure-resource"
  | hintLargeAttribute _ => "hint-large-attribute"

/-- The values of the call. -/
def values : Message → List MessageValue
  | initSuccess => []
  | getAttribute key => [.scalar key]
  | setAttribute key value => [.scalar key, .scalar value]
  | omitAttribute key => [.scalar key]
  | getSessionVariables names => [.array names]
  | updateSessionVariables names values => [.array names, .array values]
  | log level message => [.scalar level, .scalar message]
  | stdout buf => [.scalar buf]
  | result score => [.scalar score]
  | ensureResource scope rtype params => [.scalar scope, .scalar rtype, .array params]
  | hintLargeAttribute size => [.scalar size]

/-- The encoded tag. -/
def tag (message : Message) : Tag where
  bytes := encodeText message.name
  single := by cases message <;> exact of_decide_eq_true rfl
  stripped := by cases message <;> exact of_decide_eq_true rfl

end Message

/-- The writes of `_send_value`. -/
def valueWrites (value : Bytes) : List Bytes := [decimal value.length ++ [newline], value, [newline]]

/-- The writes for one argument of `send_message`. -/
def argumentWrites : MessageValue → List Bytes
  | .array elements => elements.flatMap valueWrites ++ [[newline]]
  | .scalar data => valueWrites data

/-- The writes of `send_message`, in order. -/
def writes (message : Message) : List Bytes :=
  (message.tag.bytes ++ [newline]) :: message.values.flatMap argumentWrites

/-- One write to `_fout`. The lock is released after the last one. -/
def write (stream : Bytes) : List Bytes → Bytes × (List Bytes ⊕ Unit)
  | [] => (stream, .inr ())
  | chunk :: rest => (stream ++ chunk, .inl rest)

/-- `send_message`: the writes under `_output_lock`. -/
def sending : Body Bytes Message (List Bytes) Unit := ⟨writes, write⟩

/-! ## The server -/

/-- What the server reads after a tag. -/
inductive Shape where
  | item
  | array

/-- What `_FilterRunner.evaluate` reads for a command; none for an unknown one. -/
def shapes (cmd : String) : Option (List Shape) :=
  if cmd = "init-success" then some []
  else if cmd = "get-attribute" then some [.item]
  else if cmd = "set-attribute" then some [.item, .item]
  else if cmd = "omit-attribute" then some [.item]
  else if cmd = "get-session-variables" then some [.array]
  else if cmd = "update-session-variables" then some [.array, .array]
  else if cmd = "log" then some [.item, .item]
  else if cmd = "stdout" then some [.item]
  else if cmd = "result" then some [.item]
  else if cmd = "ensure-resource" then some [.item, .item, .array]
  else if cmd = "hint-large-attribute" then some [.item]
  else none

/-- `get_item` or `get_array`. -/
def Shape.read : Shape → FrameReader Received
  | .item => Received.item <$> Server.getItem
  | .array => Received.array <$> Server.getArray

/-- A command as the server has read it, before its items are decoded. -/
structure Read where
  /-- The decoded tag. -/
  cmd : String
  /-- Its items and arrays; none for an unknown command. -/
  args : Option (List Received)

/-- The reads of one round of the loop of `evaluate`. -/
def readCommand : FrameReader Read := do
  let tag ← Server.getTag
  match String.fromUTF8? ⟨tag.toArray⟩ with
  | none => throw .unicodeDecodeError
  -- the end of the pipe
  | some "" => throw .ioError
  | some cmd =>
    match shapes cmd with
    | none => return ⟨cmd, none⟩
    | some shapes => do
      let args ← inOrder (shapes.map Shape.read)
      return ⟨cmd, some args⟩

/-! ## One message -/

/-- What a message is to the server. -/
def Message.read (message : Message) : Read :=
  ⟨message.name, some (message.values.map MessageValue.meaning)⟩

/-- The reader of a value. -/
def shapeOf : MessageValue → Shape
  | .array _ => .array
  | .scalar _ => .item

/-- The server reads as many items and arrays as the library sends. -/
theorem shapes_name (message : Message) :
    shapes message.name = some (message.values.map shapeOf) := by
  cases message <;> rfl

theorem name_ne_empty (message : Message) : message.name ≠ "" := by
  cases message <;> exact of_decide_eq_true rfl

theorem fromUTF8?_encodeText (text : String) :
    String.fromUTF8? ⟨(encodeText text).toArray⟩ = some text := by
  have hbytes : (⟨(encodeText text).toArray⟩ : ByteArray) = text.toUTF8 := by
    simp [encodeText]
  rw [hbytes, String.fromUTF8?]
  exact dif_pos text.isValidUTF8

/-- The writes of a value are its framing. -/
theorem flatten_argumentWrites (value : MessageValue) :
    (argumentWrites value).flatten = value.bytes := by
  cases value with
  | scalar data => simp [argumentWrites, valueWrites, MessageValue.bytes, sendValue]
  | array elements =>
    have helements : (elements.flatMap valueWrites).flatten = elements.flatMap sendValue := by
      induction elements with
      | nil => rfl
      | cons data rest ih =>
        rw [List.flatMap_cons, List.flatMap_cons, List.flatten_append, ih]
        simp [valueWrites, sendValue]
    rw [argumentWrites, List.flatten_append, helements, List.flatten_singleton]
    rfl

/-- The writes of a message are the message. -/
theorem flatten_writes (message : Message) :
    (writes message).flatten = Filter.sendMessage message.tag message.values := by
  have hvalues : ∀ values : List MessageValue,
      (values.flatMap argumentWrites).flatten = values.flatMap MessageValue.bytes := by
    intro values
    induction values with
    | nil => rfl
    | cons value rest ih =>
      rw [List.flatMap_cons, List.flatMap_cons, List.flatten_append, ih, flatten_argumentWrites]
  rw [writes, List.flatten_cons, hvalues]
  rfl

/-- A value is read back by its own reader. -/
theorem reads_shape (value : MessageValue) : Reads (shapeOf value).read value.bytes value.meaning := by
  have hitems := readsItems_of_readsSizes readsSizes_serverSize fun _ => True
  obtain ⟨cells, hspell, hreads⟩ := agrees_readAs hitems (messageMeaning_ne_tag value)
    (fun _ _ => trivial) fun _ _ => trivial
  rw [value.spell_meaning] at hspell
  cases hspell
  cases value with
  | scalar data => exact hreads
  | array elements => exact hreads

/-- Readers that read their cells read them one after the other. -/
theorem reads_inOrder (values : List MessageValue) :
    Reads (inOrder ((values.map shapeOf).map Shape.read)) (values.flatMap MessageValue.bytes)
      (values.map MessageValue.meaning) := by
  induction values with
  | nil => exact Reads.pure []
  | cons value rest ih =>
    refine (reads_shape value).bind ?_
    have hrest := ih.map (List.cons value.meaning)
    rwa [map_eq_pure_bind] at hrest

/-- A message is read as what it is, and the stream is left right behind it. -/
theorem reads_message (message : Message) :
    Reads readCommand (Filter.sendMessage message.tag message.values) message.read := by
  refine (reads_getTag message.tag).bind ?_
  have htag : message.tag.bytes = encodeText message.name := rfl
  have hargs : Reads (inOrder ((message.values.map shapeOf).map Shape.read) >>= fun args =>
      (pure ⟨message.name, some args⟩ : FrameReader Read))
      (message.values.flatMap MessageValue.bytes) message.read := by
    have hread := (reads_inOrder message.values).map fun args => (⟨message.name, some args⟩ : Read)
    rwa [map_eq_pure_bind] at hread
  rw [htag, fromUTF8?_encodeText]
  split
  · next h => cases h
  · next h => exact absurd (Option.some.inj h) (name_ne_empty message)
  · next cmd _ h =>
    cases h
    rw [shapes_name]
    exact hargs

/-- Messages are read one after the other. -/
theorem reads_messages (messages : List Message) :
    Reads (inOrder (messages.map fun _ => readCommand))
      (messages.flatMap fun message => (writes message).flatten) (messages.map Message.read) := by
  induction messages with
  | nil => exact Reads.pure []
  | cons message rest ih =>
    rw [List.flatMap_cons, flatten_writes]
    refine (reads_message message).bind ?_
    have hrest := ih.map (List.cons message.read)
    rwa [map_eq_pure_bind] at hrest

/-! ## The threads -/

/-- The pipe and the threads that write to it. -/
abbrev Pipe := System (Shared Bytes Message Unit) (Thread Message (List Bytes) Unit)

/-- The pipe before the first message, and what each thread will send. -/
def start (script : ℕ → List Message) : Pipe := initial [] script

/-- What is left of a message when no other thread writes. -/
def alone : Alone sending where
  finish stream chunks := (stream ++ chunks.flatten, ())
  finish_access stream chunks stream' rest h := by
    cases chunks with
    | nil => cases h
    | cons chunk chunks =>
      cases h
      rw [List.flatten_cons, List.append_assoc]
  finish_last stream chunks stream' result h := by
    cases chunks with
    | nil =>
      cases h
      rw [List.flatten_nil, List.append_nil]
    | cons chunk chunks => cases h

/-- The stream after whole messages. -/
theorem replay_eq (stream : Bytes) (messages : List Message) :
    alone.replay stream messages =
      stream ++ messages.flatMap fun message => (writes message).flatten := by
  induction messages generalizing stream with
  | nil => exact (List.append_nil stream).symm
  | cons message rest ih =>
    rw [Alone.replay, ih, List.flatMap_cons, ← List.append_assoc]
    rfl

/-- The writes that a thread has still to make are the last ones of its message. -/
def Ahead : Thread Message (List Bytes) Unit → Prop
  | .inside message chunks _ => chunks <:+ writes message
  | _ => True

theorem ahead_of_run {script : ℕ → List Message} {labels : List (Label Unit Empty)}
    {t : Pipe} (hrun : exec (lockStep sending) (start script) labels = some t) (pid : ℕ) :
    Ahead (t.procs pid) := by
  have hstart : Ahead ((start script).procs pid) := trivial
  refine exec_local (R := fun _ thread => Ahead thread) (n := 0) ?_ hstart hrun
  intro _ s thread _ s' thread' hahead hstep
  cases thread with
  | outside todo =>
    cases todo with
    | nil => cases hstep
    | cons message todo =>
      by_cases hlock : s.lock = none
      · rw [threadStep, if_pos hlock] at hstep
        cases hstep
        exact List.suffix_refl _
      · rw [threadStep, if_neg hlock] at hstep
        cases hstep
  | inside message chunks todo =>
    cases chunks with
    | nil =>
      cases hstep
      trivial
    | cons chunk chunks =>
      cases hstep
      exact (List.suffix_cons chunk chunks).trans hahead
  | leaving message result todo =>
    cases hstep
    trivial

/-- What the server reads in a state of the filter's threads. -/
structure Delivered (script : ℕ → List Message) (t : Pipe) (partialBytes : Bytes) : Prop where
  /-- It reads the messages that were sent, in the order of the lock, and is left with the start
  of the one that is being written. -/
  read : (inOrder (t.shared.done.map fun _ => readCommand)).run t.shared.memory =
    .ok (t.shared.done.map fun entry => entry.call.read, partialBytes)
  /-- The start is that of the message of the thread that holds the lock. -/
  started : partialBytes = [] ∨ ∃ pid message todo, t.shared.lock = some pid ∧
    (t.procs pid).rest = message :: todo ∧ partialBytes <+: (writes message).flatten
  /-- The messages of a thread are in its own order. -/
  order : ∀ pid, t.shared.callsOf pid ++ (t.procs pid).rest = script pid

/-- A filter that prints while it starts. -/
def printing : ℕ → List Message
  | 0 => [.initSuccess]
  | 1 => [.stdout [104, 105]]
  | _ => []

end OpenDiamond.FilterMessages
