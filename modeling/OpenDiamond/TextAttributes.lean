import OpenDiamond.Lib.Lines
import OpenDiamond.Lib.Processes

/-!
# Files of text attributes

The attributes of an object are kept in a file beside it, one on a line. A writer fills a temporary
file of its own and at the end links it to the name of the file, which fails if there is one: the
first writer wins. Any number of writers may be at work on one file. An exception in the block of a
writer does not keep its file from being linked, also when it comes from a `write` that has lost
a part of a line; one of `close` or of `unlink` leaves the temporary file behind.

A file system has names and inodes. What is written is buffered, and reaches the inode at any time
until the file is closed. A run begins with the directory as it is, without temporary files.
-/

namespace OpenDiamond.TextAttributes

open Lib.Unicode Lib.Words Lib.Lines Lib.Runs Lib.Processes

/-! ## The program -/

/-- What `write` writes. -/
def writeLine (entry : Text × Text) : Text :=
  34 :: entry.1 ++ 34 :: 61 :: 34 :: entry.2 ++ [34, 10]

/-- A symbol that has to follow. -/
def expect (c : CodePoint) : Text → Option Text
  | [] => none
  | d :: rest => if d = c then some rest else none

/-- What is between two quotes, behind blanks, and what follows. -/
def quoted (text : Text) : Option (Text × Text) := do
  let rest ← expect 34 (text.dropWhile isSpace)
  let behind ← expect 34 (rest.dropWhile (· ≠ 34))
  return (rest.takeWhile (· ≠ 34), behind)

/-- `re.match` of `^\s*"([^"]+)"\s*=\s*"([^"]*)"`. -/
def matchLine (line : Text) : Option (Text × Text) := do
  let (key, rest) ← quoted line
  let rest ← expect 61 (rest.dropWhile isSpace)
  let (value, _) ← quoted rest
  if key = [] then none else some (key, value)

/-- `__iter__`, on the content of the file. -/
def readEntries (content : Text) : List (Text × Text) := (fileLines content).filterMap matchLine

/-- The names in the directory. -/
inductive Name where
  /-- `self.path`. -/
  | path
  /-- A name of `mkstemp`. -/
  | temp (n : ℕ)
  deriving DecidableEq

/-- The file system. -/
structure Files where
  /-- The contents of the inodes. -/
  inodes : ℕ → Text
  /-- The number of inodes. -/
  next : ℕ
  /-- The inode of a name. -/
  names : Name → Option ℕ
  /-- The writer that has made an inode. -/
  creator : ℕ → Option ℕ
  /-- A writer has met an exception in its block. -/
  aborted : ℕ → Bool
  /-- The exception came from `write`. -/
  torn : ℕ → Bool
  /-- A writer's link was refused for another reason than its name. -/
  refused : ℕ → Bool

/-- What a writer has begun. -/
structure Job where
  /-- `temp_name`. -/
  temp : ℕ
  /-- The inode of `file`. -/
  inode : ℕ
  /-- What has been written. -/
  written : List (Text × Text)

/-- `with DiamondTextAttr(path, 'w')` with calls of `write`. -/
inductive Writer where
  /-- Before `mkstemp`, with what is to be written. -/
  | start (entries : List (Text × Text))
  /-- In the block, with the buffer of `file` and what is to be written. -/
  | writing (job : Job) (buffer : Text) (rest : List (Text × Text))
  /-- Before `os.link`. -/
  | linking (job : Job)
  /-- Before `os.unlink`. -/
  | unlinking (job : Job)
  /-- Behind the block. -/
  | done (job : Job)
  /-- Behind an exception of `file.close` or `os.unlink`. -/
  | failed (job : Job)

/-- The steps of a writer. -/
inductive Choice where
  /-- `mkstemp` tries a name. -/
  | create (temp : ℕ)
  /-- `write`. -/
  | write
  /-- `write` fails when a part of the buffer has reached the inode, and the rest is lost. -/
  | writeFails (count : ℕ)
  /-- A part of the buffer reaches the inode. -/
  | flush (count : ℕ)
  /-- Another exception in the block. -/
  | abort
  /-- `file.close`. -/
  | close
  /-- `file.close` fails when a part of the buffer has reached the inode. -/
  | closeFails (count : ℕ)
  /-- `os.link`. -/
  | link (refused : Bool)
  /-- `os.unlink`. -/
  | unlink
  /-- `os.unlink` fails. -/
  | unlinkFails

/-- A text behind the content of an inode. -/
def Files.append (s : Files) (inode : ℕ) (text : Text) : Files :=
  { s with inodes := Function.update s.inodes inode (s.inodes inode ++ text) }

/-- A writer's block ends with an exception. -/
def Files.abort (s : Files) (pid : ℕ) : Files :=
  { s with aborted := Function.update s.aborted pid true }

/-- The same for an exception of `write`. -/
def Files.tear (s : Files) (pid : ℕ) : Files :=
  { s.abort pid with torn := Function.update s.torn pid true }

/-- A name for an inode, or for none. -/
def Files.setName (s : Files) (name : Name) (inode : Option ℕ) : Files :=
  { s with names := Function.update s.names name inode }

/-- An empty file of a writer. -/
def Files.create (s : Files) (pid temp : ℕ) : Files :=
  { s with
    inodes := Function.update s.inodes s.next []
    next := s.next + 1
    names := Function.update s.names (.temp temp) (some s.next)
    creator := Function.update s.creator s.next (some pid) }

/-- Appending changes the text of one inode. -/
theorem Files.inodes_append (s : Files) (inode : ℕ) (text : Text) (i : ℕ) :
    (s.append inode text).inodes i =
      if i = inode then s.inodes inode ++ text else s.inodes i := Function.update_apply ..

/-- Setting a name changes what that name stands for, and no other. -/
theorem Files.names_setName (s : Files) (name : Name) (inode : Option ℕ) (other : Name) :
    (s.setName name inode).names other = if other = name then inode else s.names other :=
  Function.update_apply ..

/-- A file is created empty, under an inode that nobody had. -/
theorem Files.inodes_create (s : Files) (pid temp i : ℕ) :
    (s.create pid temp).inodes i = if i = s.next then [] else s.inodes i :=
  Function.update_apply ..

/-- It is created under its temporary name alone. -/
theorem Files.names_create (s : Files) (pid temp : ℕ) (name : Name) :
    (s.create pid temp).names name = if name = .temp temp then some s.next else s.names name :=
  Function.update_apply ..

/-- The process that creates a file is noted for its inode. -/
theorem Files.creator_create (s : Files) (pid temp i : ℕ) :
    (s.create pid temp).creator i = if i = s.next then some pid else s.creator i :=
  Function.update_apply ..

/-- A writer whose block raised is noted as aborted. -/
@[simp] theorem Files.aborted_abort (s : Files) (pid : ℕ) : (s.abort pid).aborted pid = true :=
  Function.update_self ..

/-- A step of a writer. -/
def writerStep (s : Files) (pid : ℕ) (writer : Writer) (choice : Choice) :
    Option (Files × Writer) :=
  match writer, choice with
  | .start entries, .create temp =>
    if s.names (.temp temp) = none then
      some (s.create pid temp, .writing ⟨temp, s.next, []⟩ [] entries)
    else none
  | .writing job buffer (entry :: rest), .write => some
      (s, .writing { job with written := job.written ++ [entry] } (buffer ++ writeLine entry) rest)
  | .writing job buffer (entry :: _), .writeFails count => some
      ((s.append job.inode ((buffer ++ writeLine entry).take count)).tear pid, .writing job [] [])
  | .writing job buffer rest, .flush count => some
      (s.append job.inode (buffer.take count), .writing job (buffer.drop count) rest)
  | .writing job buffer _, .abort => some (s.abort pid, .writing job buffer [])
  | .writing job buffer [], .close => some (s.append job.inode buffer, .linking job)
  | .writing job buffer [], .closeFails count => some
      (s.append job.inode (buffer.take count), .failed job)
  | .linking job, .link refused =>
    if refused then some ({ s with refused := Function.update s.refused pid true }, .unlinking job)
    else if s.names .path ≠ none then some (s, .unlinking job)
    else some (s.setName .path (some job.inode), .unlinking job)
  | .unlinking job, .unlink => some (s.setName (.temp job.temp) none, .done job)
  | .unlinking job, .unlinkFails => some (s, .failed job)
  | _, _ => none

/-- The writers, in any order. -/
abbrev writersStep : System Files Writer → Label Choice Empty → Option (System Files Writer) :=
  step writerStep fun _ event => nomatch event

/-- What is under the name of the file. -/
def Files.content (s : Files) : Option Text := (s.names .path).map s.inodes

/-- The directory with the file, if there is one, and what the writers are to write. -/
def initial (before : Option Text) (program : ℕ → List (Text × Text)) : System Files Writer :=
  ⟨⟨fun _ => before.getD [], 1, fun name => if name = .path ∧ before.isSome then some 0 else none,
    fun _ => none, fun _ => false, fun _ => false, fun _ => false⟩,
    fun pid => .start (program pid)⟩

/-! ## Lines -/

/-- A name and a value that can stand between quotes. -/
structure Writable (entry : Text × Text) : Prop where
  /-- There is a name. -/
  nonempty : entry.1 ≠ []
  /-- The name has no quote, and is on one line. -/
  key : ∀ c ∈ entry.1, c ≠ 34 ∧ c ≠ 10 ∧ c ≠ 13
  /-- So is the value. -/
  value : ∀ c ∈ entry.2, c ≠ 34 ∧ c ≠ 10 ∧ c ≠ 13

/-- A quoted part without quotation marks is read up to the mark behind it. -/
theorem quoted_cons {part : Text} (h : ∀ c ∈ part, c ≠ 34) (rest : Text) :
    quoted (34 :: (part ++ 34 :: rest)) = some (part, rest) := by
  have hall : ∀ c ∈ part, decide (c ≠ 34) = true := fun c hc => decide_eq_true (h c hc)
  have htake : (part ++ 34 :: rest).takeWhile (· ≠ 34) = part := by
    rw [List.takeWhile_append_of_pos hall, List.takeWhile_cons_of_neg (by decide), List.append_nil]
  have hdrop : (part ++ 34 :: rest).dropWhile (· ≠ 34) = 34 :: rest := by
    rw [List.dropWhile_append_of_pos hall, List.dropWhile_cons_of_neg (by decide)]
  have hspace : (34 :: (part ++ 34 :: rest)).dropWhile isSpace = 34 :: (part ++ 34 :: rest) := rfl
  rw [quoted, hspace]
  simp only [expect, if_true, Option.bind_eq_bind, Option.bind_some, htake, hdrop, Option.pure_def]

/-- A line is matched as it was written. -/
theorem matchLine_writeLine {entry : Text × Text} (h : Writable entry) :
    matchLine (writeLine entry) = some entry := by
  obtain ⟨key, value⟩ := entry
  have hline : writeLine (key, value) = 34 :: (key ++ 34 :: 61 :: 34 :: (value ++ 34 :: [10])) := by
    simp only [writeLine, List.append_assoc, List.cons_append]
  have hequals : (61 :: 34 :: (value ++ 34 :: [10])).dropWhile isSpace =
      61 :: 34 :: (value ++ 34 :: [10]) := rfl
  rw [hline, matchLine, quoted_cons fun c hc => (h.key c hc).1]
  simp only [Option.bind_eq_bind, Option.bind_some, hequals, expect, if_true,
    quoted_cons fun c hc => (h.value c hc).1, if_neg h.nonempty]

/-- Entries are read back as they were written. -/
theorem readEntries_written {entries : List (Text × Text)} (h : ∀ entry ∈ entries, Writable entry) :
    readEntries (entries.flatMap writeLine) = entries := by
  induction entries with
  | nil => rfl
  | cons entry rest ih =>
    have hwritable := h entry List.mem_cons_self
    have hunbroken : ∀ c ∈ 34 :: entry.1 ++ 34 :: 61 :: 34 :: entry.2 ++ [34], c ≠ 10 ∧ c ≠ 13 := by
      have hquote : (34 : CodePoint) ≠ 10 ∧ (34 : CodePoint) ≠ 13 := by decide
      have hequals : (61 : CodePoint) ≠ 10 ∧ (61 : CodePoint) ≠ 13 := by decide
      intro c hc
      simp only [List.mem_append, List.mem_cons, List.not_mem_nil, or_false] at hc
      rcases hc with ((rfl | hc) | rfl | rfl | rfl | hc) | rfl
      · exact hquote
      · exact (hwritable.key c hc).2
      · exact hquote
      · exact hequals
      · exact hquote
      · exact (hwritable.value c hc).2
      · exact hquote
    have hline : (34 :: entry.1 ++ 34 :: 61 :: 34 :: entry.2 ++ [34]) ++ [10] = writeLine entry := by
      simp only [writeLine, List.append_assoc, List.cons_append, List.nil_append]
    have hlines : fileLines ((entry :: rest).flatMap writeLine) =
        writeLine entry :: fileLines (rest.flatMap writeLine) := by
      rw [List.flatMap_cons, ← hline, List.append_assoc, List.singleton_append, fileLines,
        fileLinesFrom_append hunbroken, List.nil_append, hline]
      rfl
    rw [readEntries, hlines, List.filterMap_cons, matchLine_writeLine hwritable]
    exact congrArg _ (ih fun other hother => h other (List.mem_cons_of_mem _ hother))

/-! ## Files and writers -/

/-- What a writer has begun is its own. -/
structure Made (s : Files) (pid : ℕ) (job : Job) : Prop where
  /-- The inode. -/
  made : s.creator job.inode = some pid
  /-- The only one. -/
  only : ∀ i, s.creator i = some pid → i = job.inode

/-- What a writer has begun still has its temporary name. -/
structure Owns (s : Files) (pid : ℕ) (job : Job) : Prop extends Made s pid job where
  /-- The temporary name. -/
  named : s.names (.temp job.temp) = some job.inode

/-- What has been written and is to be written is what the program says, up to an exception. -/
structure Wrote (s : Files) (pid : ℕ) (entries : List (Text × Text)) (job : Job)
    (rest : List (Text × Text)) : Prop where
  /-- In order. -/
  begins : job.written ++ rest <+: entries
  /-- All of it. -/
  whole : s.aborted pid = false → job.written ++ rest = entries
  /-- Nothing is written behind an exception of `write`. -/
  nothingLeft : s.torn pid = true → rest = []

/-- What has been written, as text. -/
def Job.text (job : Job) : Text := job.written.flatMap writeLine

/-- What has reached an inode and the buffer is what has been written, up to an exception of
`write`. -/
structure Contains (s : Files) (pid : ℕ) (entries : List (Text × Text)) (job : Job) (text : Text) :
    Prop where
  /-- Without such an exception. -/
  exactly : s.torn pid = false → text = job.text
  /-- In every case. -/
  begins : text <+: entries.flatMap writeLine

/-- What a writer keeps. -/
def WriterOk (program : ℕ → List (Text × Text)) (s : Files) (pid : ℕ) : Writer → Prop
  | .start entries => entries = program pid ∧ s.torn pid = false ∧ ∀ i, s.creator i ≠ some pid
  | .writing job buffer rest => Owns s pid job ∧ Wrote s pid (program pid) job rest ∧
      Contains s pid (program pid) job (s.inodes job.inode ++ buffer) ∧
      s.names .path ≠ some job.inode
  | .linking job => Owns s pid job ∧ Wrote s pid (program pid) job [] ∧
      Contains s pid (program pid) job (s.inodes job.inode)
  | .unlinking job => Owns s pid job ∧ (s.refused pid = false → s.names .path ≠ none)
  | .done job => Made s pid job ∧ (∀ n, s.names (.temp n) ≠ some job.inode) ∧
      (s.refused pid = false → s.names .path ≠ none)
  | .failed job => Owns s pid job

/-- The content of an inode that is under the name of the file: it was there before, or it is all
that a writer has written, up to an exception of `write`. -/
def Published (before : Option Text) (program : ℕ → List (Text × Text)) (s : Files) (i : ℕ) :
    Prop :=
  (s.creator i = none ∧ before = some (s.inodes i)) ∨
    ∃ pid job, s.creator i = some pid ∧ Contains s pid (program pid) job (s.inodes i) ∧
      Wrote s pid (program pid) job []

/-- What the file system keeps. -/
structure FilesInv (before : Option Text) (program : ℕ → List (Text × Text)) (s : Files) :
    Prop where
  /-- Names have inodes. -/
  names : ∀ name i, s.names name = some i → i < s.next
  /-- Writers have made inodes. -/
  creators : ∀ i pid, s.creator i = some pid → i < s.next
  /-- A temporary name is that of a writer. -/
  temps : ∀ n i, s.names (.temp n) = some i → ∃ pid, s.creator i = some pid
  /-- An inode has one temporary name. -/
  injective : ∀ m n i, s.names (.temp m) = some i → s.names (.temp n) = some i → m = n
  /-- What is under the name of the file. -/
  published : ∀ i, s.names .path = some i → Published before program s i
  /-- A file that was there stays there. -/
  stays : before.isSome → s.names .path ≠ none

/-- A writer sees nothing of a step. -/
structure Unaffected (s s' : Files) (pid : ℕ) : Prop where
  /-- Its inodes are the same. -/
  creator : ∀ i, s'.creator i = some pid ↔ s.creator i = some pid
  /-- Their contents too. -/
  inodes : ∀ i, s.creator i = some pid → s'.inodes i = s.inodes i
  /-- Their names too. -/
  temps : ∀ n i, s.creator i = some pid → (s'.names (.temp n) = some i ↔ s.names (.temp n) = some i)
  /-- They are not linked. -/
  path : ∀ i, s.creator i = some pid → s'.names .path = some i → s.names .path = some i
  /-- The file stays. -/
  stays : s.names .path ≠ none → s'.names .path ≠ none
  /-- No exception in its block. -/
  aborted : s'.aborted pid = s.aborted pid
  /-- Not of `write` either. -/
  torn : s'.torn pid = s.torn pid
  /-- Its link is not refused. -/
  refused : s'.refused pid = s.refused pid

variable {before : Option Text} {program : ℕ → List (Text × Text)} {s s' : Files} {pid : ℕ}

/-- The steps of others do not change who made a file. -/
theorem Made.of_unaffected {job : Job} (h : Made s pid job) (hsame : Unaffected s s' pid) :
    Made s' pid job :=
  ⟨(hsame.creator _).mpr h.made, fun i hi => h.only i ((hsame.creator i).mp hi)⟩

/-- The steps of others do not take the temporary file away from its writer. -/
theorem Owns.of_unaffected {job : Job} (h : Owns s pid job) (hsame : Unaffected s s' pid) :
    Owns s' pid job :=
  ⟨h.toMade.of_unaffected hsame, (hsame.temps _ _ h.made).mpr h.named⟩

/-- What a writer has written, and what it still has to write, is left alone by the steps of
others. -/
theorem Wrote.of_unaffected {entries rest : List (Text × Text)} {job : Job}
    (h : Wrote s pid entries job rest) (hsame : Unaffected s s' pid) : Wrote s' pid entries job rest :=
  ⟨h.begins, fun haborted => h.whole (hsame.aborted ▸ haborted),
    fun htorn => h.nothingLeft (hsame.torn ▸ htorn)⟩

/-- The text of a temporary file is left alone by the steps of others. -/
theorem Contains.of_unaffected {entries : List (Text × Text)} {job : Job} {text : Text}
    (h : Contains s pid entries job text) (hsame : Unaffected s s' pid) :
    Contains s' pid entries job text :=
  ⟨fun htorn => h.exactly (hsame.torn ▸ htorn), h.begins⟩

/-- A writer is left alone. -/
theorem WriterOk.of_unaffected {writer : Writer} (h : WriterOk program s pid writer)
    (hsame : Unaffected s s' pid) : WriterOk program s' pid writer := by
  cases writer with
  | start entries =>
    exact ⟨h.1, hsame.torn.trans h.2.1, fun i hi => h.2.2 i ((hsame.creator i).mp hi)⟩
  | writing job buffer rest =>
    obtain ⟨howns, hwrote, htext, hpath⟩ := h
    refine ⟨howns.of_unaffected hsame, hwrote.of_unaffected hsame, ?_, ?_⟩
    · rw [hsame.inodes _ howns.made]
      exact htext.of_unaffected hsame
    · exact fun hlinked => hpath (hsame.path _ howns.made hlinked)
  | linking job =>
    obtain ⟨howns, hwrote, htext⟩ := h
    refine ⟨howns.of_unaffected hsame, hwrote.of_unaffected hsame, ?_⟩
    rw [hsame.inodes _ howns.made]
    exact htext.of_unaffected hsame
  | unlinking job =>
    exact ⟨h.1.of_unaffected hsame, fun hrefused => hsame.stays (h.2 (hsame.refused ▸ hrefused))⟩
  | done job =>
    obtain ⟨hmade, hgone, hpath⟩ := h
    exact ⟨hmade.of_unaffected hsame, fun n hn => hgone n ((hsame.temps n _ hmade.made).mp hn),
      fun hrefused => hsame.stays (hpath (hsame.refused ▸ hrefused))⟩
  | failed job => exact Owns.of_unaffected h hsame

/-- The content under the name of the file does not change. -/
def Keeps (s s' : Files) : Prop :=
  ∀ i, s.names .path = some i → s'.names .path = some i ∧ s'.inodes i = s.inodes i

/-- A writer that is left alone by two steps is left alone by both together. -/
theorem Unaffected.trans {s'' : Files} (h : Unaffected s s' pid) (h' : Unaffected s' s'' pid) :
    Unaffected s s'' pid where
  creator i := (h'.creator i).trans (h.creator i)
  inodes i hi := (h'.inodes i ((h.creator i).mpr hi)).trans (h.inodes i hi)
  temps n i hi := (h'.temps n i ((h.creator i).mpr hi)).trans (h.temps n i hi)
  path i hi hlinked := h.path i hi (h'.path i ((h.creator i).mpr hi) hlinked)
  stays hpath := h'.stays (h.stays hpath)
  aborted := h'.aborted.trans h.aborted
  torn := h'.torn.trans h.torn
  refused := h'.refused.trans h.refused

/-- What a step of a writer must leave. -/
structure Step (before : Option Text) (program : ℕ → List (Text × Text)) (s s' : Files) (pid : ℕ)
    (writer : Writer) : Prop where
  /-- The file system. -/
  files : FilesInv before program s'
  /-- The writer. -/
  own : WriterOk program s' pid writer
  /-- The other writers. -/
  others : ∀ other, other ≠ pid → Unaffected s s' other
  /-- The file. -/
  keeps : Keeps s s'

/-- Two things that a writer does in one step. -/
theorem Step.trans {s'' : Files} {writer writer' : Writer}
    (h : Step before program s s' pid writer) (h' : Step before program s' s'' pid writer') :
    Step before program s s'' pid writer' where
  files := h'.files
  own := h'.own
  others other hne := (h.others other hne).trans (h'.others other hne)
  keeps i hi :=
    ⟨(h'.keeps i (h.keeps i hi).1).1, (h'.keeps i (h.keeps i hi).1).2.trans (h.keeps i hi).2⟩

/-- What stands under the name is judged by its maker, its text and the fate of its maker alone. -/
theorem Published.congr {i : ℕ} (h : Published before program s i)
    (hcreator : s'.creator i = s.creator i) (hinodes : s'.inodes i = s.inodes i)
    (haborted : ∀ pid, s'.aborted pid = false → s.aborted pid = false)
    (htorn : ∀ pid, s'.torn pid = false → s.torn pid = false) : Published before program s' i := by
  rcases h with ⟨hnone, hbefore⟩ | ⟨pid, job, hmade, htext, hwrote⟩
  · exact Or.inl ⟨hcreator.trans hnone, by rw [hinodes]; exact hbefore⟩
  · refine Or.inr ⟨pid, job, hcreator.trans hmade, ?_, hwrote.begins,
      fun hfalse => hwrote.whole (haborted pid hfalse), fun _ => rfl⟩
    rw [hinodes]
    exact ⟨fun hfalse => htext.exactly (htorn pid hfalse), htext.begins⟩

/-! ## The steps -/

/-- No name has the inode that is made next. -/
theorem FilesInv.fresh (hinv : FilesInv before program s) (name : Name) :
    s.names name ≠ some s.next := fun hname => absurd (hinv.names name _ hname) (lt_irrefl _)

/-- A new temporary file leaves the name of the file, and the inodes that were there. -/
theorem names_create_path (pid temp : ℕ) : (s.create pid temp).names .path = s.names .path := by
  rw [s.names_create, if_neg (by simp)]

theorem inodes_create_of_lt (pid temp : ℕ) {i : ℕ} (hi : i < s.next) :
    (s.create pid temp).inodes i = s.inodes i := by
  rw [s.inodes_create, if_neg (ne_of_lt hi)]

theorem creator_create_of_lt (pid temp : ℕ) {i : ℕ} (hi : i < s.next) :
    (s.create pid temp).creator i = s.creator i := by
  rw [s.creator_create, if_neg (ne_of_lt hi)]

/-- Its own name is that of the new inode, and the other temporary names are those from before. -/
theorem names_create_temp (pid temp n : ℕ) : (s.create pid temp).names (.temp n) =
    if n = temp then some s.next else s.names (.temp n) := by
  rw [s.names_create]
  by_cases hn : n = temp
  · rw [if_pos hn, if_pos (by rw [hn])]
  · rw [if_neg hn, if_neg (by simpa using hn)]

/-- The file system after a writer has made its temporary file. -/
theorem FilesInv.create (hinv : FilesInv before program s) (pid temp : ℕ) :
    FilesInv before program (s.create pid temp) := by
  refine ⟨?_, ?_, ?_, ?_, ?_, ?_⟩
  · intro name i hi
    rw [s.names_create] at hi
    show i < s.next + 1
    split at hi
    · rw [← Option.some.inj hi]
      omega
    · have hlt := hinv.names name i hi
      omega
  · intro i other hi
    rw [s.creator_create] at hi
    show i < s.next + 1
    split at hi
    · omega
    · have hlt := hinv.creators i other hi
      omega
  · intro n i hi
    rw [names_create_temp] at hi
    split at hi
    · rw [← Option.some.inj hi]
      exact ⟨pid, by rw [s.creator_create, if_pos rfl]⟩
    · obtain ⟨other, hother⟩ := hinv.temps n i hi
      exact ⟨other, (creator_create_of_lt pid temp (hinv.names _ i hi)).trans hother⟩
  · intro m n i hm hn
    rw [names_create_temp] at hm hn
    split at hm <;> split at hn
    · rename_i hmt hnt
      rw [hmt, hnt]
    · exact absurd (hn.trans hm.symm) (hinv.fresh _)
    · exact absurd (hm.trans hn.symm) (hinv.fresh _)
    · exact hinv.injective m n i hm hn
  · intro i hi
    rw [names_create_path] at hi
    have hlt := hinv.names _ i hi
    exact (hinv.published i hi).congr (creator_create_of_lt pid temp hlt)
      (inodes_create_of_lt pid temp hlt) (fun _ h => h) fun _ h => h
  · intro hbefore
    rw [names_create_path]
    exact hinv.stays hbefore

/-- The other writers see nothing of it, as the inode and the name are new. -/
theorem FilesInv.unaffected_create (hinv : FilesInv before program s) {temp : ℕ}
    (hfree : s.names (.temp temp) = none) {other : ℕ} (hother : other ≠ pid) :
    Unaffected s (s.create pid temp) other := by
  refine ⟨fun i => ?_, fun i hi => inodes_create_of_lt pid temp (hinv.creators i other hi),
    fun n i hi => ?_, fun i _ hi => names_create_path pid temp ▸ hi,
    fun h => names_create_path pid temp ▸ h, rfl, rfl, rfl⟩
  · rw [s.creator_create]
    split
    · rename_i hi
      subst hi
      refine iff_of_false (fun h => hother (Option.some.inj h).symm) fun h => ?_
      exact absurd (hinv.creators _ _ h) (lt_irrefl _)
    · exact Iff.rfl
  · have hlt := hinv.creators i other hi
    rw [names_create_temp]
    split
    · rename_i hn
      rw [hn, hfree]
      exact iff_of_false (fun h => absurd (Option.some.inj h) (ne_of_gt hlt)) (by simp)
    · exact Iff.rfl

/-- Creating the temporary file gives the writer a file of its own; the name was free. -/
theorem create_step {temp : ℕ} {entries : List (Text × Text)} (hinv : FilesInv before program s)
    (hok : WriterOk program s pid (.start entries)) (hfree : s.names (.temp temp) = none) :
    Step before program s (s.create pid temp) pid (.writing ⟨temp, s.next, []⟩ [] entries) := by
  obtain ⟨rfl, htorn, hnone⟩ := hok
  have hpath : (s.create pid temp).names .path = s.names .path := names_create_path pid temp
  refine ⟨hinv.create pid temp, ⟨⟨⟨?_, fun i hi => ?_⟩, ?_⟩,
      ⟨?_, fun _ => rfl, fun h => absurd (htorn.symm.trans h) Bool.false_ne_true⟩, ?_, ?_⟩,
    fun other hother => hinv.unaffected_create hfree hother,
    fun i hi => ⟨hpath.trans hi, inodes_create_of_lt pid temp (hinv.names _ i hi)⟩⟩
  · rw [s.creator_create, if_pos rfl]
  · rw [s.creator_create] at hi
    split at hi
    · assumption
    · exact absurd hi (hnone i)
  · rw [names_create_temp, if_pos rfl]
  · exact List.prefix_rfl
  · rw [s.inodes_create, if_pos rfl]
    exact ⟨fun _ => rfl, List.nil_prefix⟩
  · rw [hpath]
    exact hinv.fresh _

/-- A step that only a writer sees keeps everything, as long as the writer itself is as it must
be. -/
theorem quiet_step {writer : Writer} (hinv : FilesInv before program s)
    (hown : WriterOk program s pid writer) : Step before program s s pid writer :=
  ⟨hinv, hown, fun _ _ => ⟨fun _ => Iff.rfl, fun _ _ => rfl, fun _ _ _ => Iff.rfl,
    fun _ _ h => h, fun h => h, rfl, rfl, rfl⟩, fun _ hi => ⟨hi, rfl⟩⟩

/-- What is appended to an inode that is not linked is seen by its writer only, since nobody else
owns the inode. -/
theorem append_step {job : Job} (hinv : FilesInv before program s) (howns : Owns s pid job)
    (hpath : s.names .path ≠ some job.inode) (text : Text) {writer : Writer}
    (hown : WriterOk program (s.append job.inode text) pid writer) :
    Step before program s (s.append job.inode text) pid writer := by
  have hinodes : ∀ i, i ≠ job.inode → (s.append job.inode text).inodes i = s.inodes i :=
    fun i hi => by rw [s.inodes_append, if_neg hi]
  have hlinked : ∀ i, s.names .path = some i → i ≠ job.inode := by
    rintro i hi rfl
    exact hpath hi
  refine ⟨⟨hinv.names, hinv.creators, hinv.temps, hinv.injective, fun i hi => ?_, hinv.stays⟩, hown,
    fun other hother => ⟨fun _ => Iff.rfl, fun i hi => hinodes i ?_, fun _ _ _ => Iff.rfl,
      fun _ _ h => h, fun h => h, rfl, rfl, rfl⟩, fun i hi => ⟨hi, hinodes i (hlinked i hi)⟩⟩
  · exact (hinv.published i hi).congr rfl (hinodes i (hlinked i hi)) (fun _ h => h) fun _ h => h
  · rintro rfl
    exact hother (Option.some.inj (hi.symm.trans howns.made))

/-- An exception in a block is noted of its writer, and of no other one. -/
theorem noted_step {aborted torn : ℕ → Bool} {writer : Writer} (hinv : FilesInv before program s)
    (haborted : ∀ other, aborted other = false → s.aborted other = false)
    (htorn : ∀ other, torn other = false → s.torn other = false)
    (hother : ∀ other, other ≠ pid → aborted other = s.aborted other ∧ torn other = s.torn other)
    (hown : WriterOk program { s with aborted, torn } pid writer) :
    Step before program s { s with aborted, torn } pid writer :=
  ⟨⟨hinv.names, hinv.creators, hinv.temps, hinv.injective, fun i hi =>
      (hinv.published i hi).congr rfl rfl haborted htorn, hinv.stays⟩, hown,
    fun other hne => ⟨fun _ => Iff.rfl, fun _ _ => rfl, fun _ _ _ => Iff.rfl, fun _ _ h => h,
      fun h => h, (hother other hne).1, (hother other hne).2, rfl⟩, fun _ hi => ⟨hi, rfl⟩⟩

/-- What is noted of one writer is not noted of the others. -/
theorem update_eq_false {noted : ℕ → Bool} {other : ℕ}
    (h : Function.update noted pid true other = false) : noted other = false := by
  by_cases hother : other = pid
  · subst hother
    simp at h
  · rwa [Function.update_of_ne hother] at h

/-- An exception in the block leaves the rest of the entries unwritten, and what was written
stays. -/
theorem abort_step {job : Job} {buffer : Text} {rest : List (Text × Text)}
    (hinv : FilesInv before program s) (hok : WriterOk program s pid (.writing job buffer rest)) :
    Step before program s (s.abort pid) pid (.writing job buffer []) := by
  obtain ⟨howns, hwrote, htext, hpath⟩ := hok
  refine noted_step hinv (fun _ => update_eq_false) (fun _ h => h)
    (fun other hne => ⟨Function.update_of_ne hne _ _, rfl⟩)
    ⟨⟨⟨howns.made, howns.only⟩, howns.named⟩, ⟨?_, fun hfalse => ?_, fun _ => rfl⟩,
      ⟨htext.exactly, htext.begins⟩, hpath⟩
  · rw [List.append_nil]
    exact (List.prefix_append _ _).trans hwrote.begins
  · simp at hfalse

/-- The text of what is written next is still the beginning of all that is to be written. -/
theorem Contains.next {job : Job} {text : Text} {entry : Text × Text} {rest : List (Text × Text)}
    (hwrote : Wrote s pid (program pid) job (entry :: rest))
    (htext : Contains s pid (program pid) job text) :
    s.torn pid = false ∧ text = job.text ∧
      text ++ writeLine entry <+: (program pid).flatMap writeLine := by
  have htorn : s.torn pid = false := by
    by_contra htorn
    cases hwrote.nothingLeft ((Bool.not_eq_false _).mp htorn)
  have hexactly := htext.exactly htorn
  refine ⟨htorn, hexactly, ?_⟩
  obtain ⟨others, hothers⟩ := hwrote.begins
  refine ⟨rest.flatMap writeLine ++ others.flatMap writeLine, ?_⟩
  rw [← hothers, hexactly, Job.text]
  simp only [List.flatMap_append, List.flatMap_cons, List.append_assoc]

/-- A `write` that fails leaves a part of its text; the writer is noted as torn, and what follows is
no whole text any more. -/
theorem tear_step {job : Job} {buffer : Text} {entry : Text × Text} {rest : List (Text × Text)}
    (hinv : FilesInv before program s)
    (hok : WriterOk program s pid (.writing job buffer (entry :: rest))) (count : ℕ) :
    Step before program s
      ((s.append job.inode ((buffer ++ writeLine entry).take count)).tear pid) pid
      (.writing job [] []) := by
  obtain ⟨howns, hwrote, htext, hpath⟩ := hok
  have hbegins := (htext.next hwrote).2.2
  have hreached : Step before program s
      (s.append job.inode ((buffer ++ writeLine entry).take count)) pid (.failed job) :=
    append_step hinv howns hpath _ ⟨⟨howns.made, howns.only⟩, howns.named⟩
  refine hreached.trans (noted_step hreached.files (fun _ => update_eq_false)
    (fun _ => update_eq_false)
    (fun other hne => ⟨Function.update_of_ne hne _ _, Function.update_of_ne hne _ _⟩)
    ⟨⟨⟨howns.made, howns.only⟩, howns.named⟩, ⟨?_, fun hfalse => ?_, fun _ => rfl⟩,
      ⟨fun hfalse => ?_, ?_⟩, hpath⟩)
  · rw [List.append_nil]
    exact (List.prefix_append _ _).trans hwrote.begins
  · simp at hfalse
  · simp at hfalse
  · show (s.append job.inode ((buffer ++ writeLine entry).take count)).inodes job.inode ++ [] <+: _
    rw [List.append_nil, s.inodes_append, if_pos rfl]
    rw [List.append_assoc] at hbegins
    exact ((List.prefix_append_right_inj _).mpr (List.take_prefix count _)).trans hbegins

/-- A link that fails is noted, and the writer goes on to leave. -/
theorem refuse_step {job : Job} (hinv : FilesInv before program s)
    (hok : WriterOk program s pid (.linking job)) :
    Step before program s { s with refused := Function.update s.refused pid true } pid
      (.unlinking job) := by
  obtain ⟨howns, -, -⟩ := hok
  refine ⟨⟨hinv.names, hinv.creators, hinv.temps, hinv.injective,
      fun i hi => (hinv.published i hi).congr rfl rfl (fun _ h => h) fun _ h => h, hinv.stays⟩,
    ⟨⟨⟨howns.made, howns.only⟩, howns.named⟩, fun hfalse => ?_⟩,
    fun other hother => ⟨fun _ => Iff.rfl, fun _ _ => rfl, fun _ _ _ => Iff.rfl, fun _ _ h => h,
      fun h => h, rfl, rfl, Function.update_of_ne hother _ _⟩, fun _ hi => ⟨hi, rfl⟩⟩
  simp at hfalse

/-- A link gives the name the writer's file, only where the name had none; from then on the file is
what its writer wrote, or a beginning of that if a write failed or the block raised. -/
theorem link_step {job : Job} (hinv : FilesInv before program s)
    (hok : WriterOk program s pid (.linking job)) (hfree : s.names .path = none) :
    Step before program s (s.setName .path (some job.inode)) pid (.unlinking job) := by
  obtain ⟨howns, hwrote, htext⟩ := hok
  have htemp : ∀ n, (s.setName .path (some job.inode)).names (.temp n) = s.names (.temp n) :=
    fun n => by rw [s.names_setName, if_neg (by simp)]
  have hpath : (s.setName .path (some job.inode)).names .path = some job.inode := by
    rw [s.names_setName, if_pos rfl]
  refine ⟨⟨?_, hinv.creators, fun n i hi => ?_, fun m n i hm hn => ?_, fun i hi => ?_, fun _ => ?_⟩,
    ⟨⟨⟨howns.made, howns.only⟩, (htemp _).trans howns.named⟩, fun _ => ?_⟩, fun other hother =>
      ⟨fun _ => Iff.rfl, fun _ _ => rfl, fun n i _ => by rw [htemp], fun i hi hlinked => ?_,
        fun _ => ?_, rfl, rfl, rfl⟩, fun i hi => ?_⟩
  · intro name i hi
    rw [s.names_setName] at hi
    split at hi
    · rw [← Option.some.inj hi]
      exact hinv.creators _ _ howns.made
    · exact hinv.names name i hi
  · exact hinv.temps n i ((htemp n).symm.trans hi)
  · exact hinv.injective m n i ((htemp m).symm.trans hm) ((htemp n).symm.trans hn)
  · rw [hpath] at hi
    cases hi
    exact Or.inr ⟨pid, job, howns.made, ⟨htext.exactly, htext.begins⟩, hwrote.begins,
      hwrote.whole, hwrote.nothingLeft⟩
  · rw [hpath]
    exact Option.some_ne_none _
  · rw [hpath]
    exact Option.some_ne_none _
  · rw [hpath] at hlinked
    cases hlinked
    exact absurd (Option.some.inj (hi.symm.trans howns.made)) hother
  · rw [hpath]
    exact Option.some_ne_none _
  · rw [hfree] at hi
    cases hi

/-- Taking the temporary name away leaves the file itself, which may have the other name by now. -/
theorem unlink_step {job : Job} (hinv : FilesInv before program s)
    (hok : WriterOk program s pid (.unlinking job)) :
    Step before program s (s.setName (.temp job.temp) none) pid (.done job) := by
  obtain ⟨howns, hlinked⟩ := hok
  have hpath : (s.setName (.temp job.temp) none).names .path = s.names .path := by
    rw [s.names_setName, if_neg (by simp)]
  have hkept : ∀ name i, (s.setName (.temp job.temp) none).names name = some i →
      s.names name = some i := by
    intro name i hi
    rw [s.names_setName] at hi
    split at hi
    · cases hi
    · exact hi
  refine ⟨⟨fun name i hi => hinv.names name i (hkept name i hi), hinv.creators,
      fun n i hi => hinv.temps n i (hkept _ i hi),
      fun m n i hm hn => hinv.injective m n i (hkept _ i hm) (hkept _ i hn), fun i hi => ?_,
      fun h => hpath ▸ hinv.stays h⟩,
    ⟨⟨howns.made, howns.only⟩, fun n hn => ?_, fun hrefused => hpath ▸ hlinked hrefused⟩,
    fun other hother => ⟨fun _ => Iff.rfl, fun _ _ => rfl, fun n i hi => ?_,
      fun i _ hi => hpath ▸ hi, fun h => hpath ▸ h, rfl, rfl, rfl⟩,
    fun i hi => ⟨hpath.trans hi, rfl⟩⟩
  · exact (hinv.published i (hkept _ i hi)).congr rfl rfl (fun _ h => h) fun _ h => h
  · have hsame := hinv.injective _ _ _ (hkept _ _ hn) howns.named
    rw [hsame, s.names_setName, if_pos rfl] at hn
    cases hn
  · rw [s.names_setName]
    split
    · rename_i hname
      rw [hname, howns.named]
      refine iff_of_false (by simp) fun h => hother ?_
      rw [← Option.some.inj h] at hi
      exact Option.some.inj (hi.symm.trans howns.made)
    · exact Iff.rfl

/-- Every step of a writer leaves what it must leave, case by case of where the writer stands and of
what the system call does. -/
theorem writerStep_kept {writer writer' : Writer} {choice : Choice}
    (hinv : FilesInv before program s) (hok : WriterOk program s pid writer)
    (h : writerStep s pid writer choice = some (s', writer')) :
    Step before program s s' pid writer' := by
  cases writer with
  | start entries =>
    cases choice with
    | create temp =>
      simp only [writerStep, Option.ite_none_right_eq_some, Option.some.injEq, Prod.mk.injEq] at h
      obtain ⟨hfree, rfl, rfl⟩ := h
      exact create_step hinv hok hfree
    | _ => cases h
  | writing job buffer rest =>
    obtain ⟨howns, hwrote, htext, hpath⟩ := id hok
    cases choice with
    | write =>
      cases rest with
      | nil => cases h
      | cons entry rest =>
        cases h
        obtain ⟨htorn, hexactly, hbegins⟩ := htext.next hwrote
        refine quiet_step hinv ⟨⟨⟨howns.made, howns.only⟩, howns.named⟩,
          ⟨?_, ?_, fun h => absurd (htorn.symm.trans h) Bool.false_ne_true⟩,
          ⟨fun _ => ?_, ?_⟩, hpath⟩
        · simpa using hwrote.begins
        · simpa using hwrote.whole
        · rw [← List.append_assoc, hexactly, Job.text, Job.text, List.flatMap_append]
          simp
        · rw [← List.append_assoc]
          exact hbegins
    | writeFails count =>
      cases rest with
      | nil => cases h
      | cons entry rest =>
        cases h
        exact tear_step hinv hok count
    | flush count =>
      have happended : writerStep s pid (.writing job buffer rest) (.flush count) =
          some (s.append job.inode (buffer.take count), .writing job (buffer.drop count) rest) := by
        cases rest <;> rfl
      rw [happended] at h
      cases h
      refine append_step hinv howns hpath _ ⟨⟨⟨howns.made, howns.only⟩, howns.named⟩,
        ⟨hwrote.begins, hwrote.whole, hwrote.nothingLeft⟩, ?_, hpath⟩
      rw [s.inodes_append, if_pos rfl, List.append_assoc, List.take_append_drop]
      exact ⟨htext.exactly, htext.begins⟩
    | abort =>
      have haborted : writerStep s pid (.writing job buffer rest) .abort =
          some (s.abort pid, .writing job buffer []) := by cases rest <;> rfl
      rw [haborted] at h
      cases h
      exact abort_step hinv hok
    | close =>
      cases rest with
      | nil =>
        cases h
        refine append_step hinv howns hpath _ ⟨⟨⟨howns.made, howns.only⟩, howns.named⟩,
          ⟨hwrote.begins, hwrote.whole, hwrote.nothingLeft⟩, ?_⟩
        rw [s.inodes_append, if_pos rfl]
        exact ⟨htext.exactly, htext.begins⟩
      | cons entry rest => cases h
    | closeFails count =>
      cases rest with
      | nil =>
        cases h
        exact append_step hinv howns hpath _ ⟨⟨howns.made, howns.only⟩, howns.named⟩
      | cons entry rest => cases h
    | create temp => cases rest <;> cases h
    | link refused => cases rest <;> cases h
    | unlink => cases rest <;> cases h
    | unlinkFails => cases rest <;> cases h
  | linking job =>
    cases choice with
    | link refused =>
      rw [writerStep] at h
      by_cases hrefused : refused = true
      · rw [if_pos hrefused] at h
        cases h
        exact refuse_step hinv hok
      · rw [if_neg hrefused] at h
        by_cases hfree : s.names .path = none
        · rw [if_neg (by simpa using hfree)] at h
          cases h
          exact link_step hinv hok hfree
        · rw [if_pos hfree] at h
          cases h
          exact quiet_step hinv ⟨hok.1, fun _ => hfree⟩
    | _ => cases h
  | unlinking job =>
    cases choice with
    | unlink =>
      cases h
      exact unlink_step hinv hok
    | unlinkFails =>
      cases h
      exact quiet_step hinv hok.1
    | _ => cases h
  | done job => cases h
  | failed job => cases h

/-! ## Whole runs -/

section Whole

variable {labels more : List (Label Choice Empty)} {u v : System Files Writer}

/-- At the start only the file from before is there, and no writer has begun, so that every writer
still has all its entries to write. -/
theorem initial_holds (before : Option Text) (program : ℕ → List (Text × Text)) :
    Holds (FilesInv before program) (WriterOk program) (initial before program) := by
  have hname : ∀ name i, (initial before program).shared.names name = some i →
      name = .path ∧ before.isSome ∧ i = 0 := by
    intro name i hi
    obtain ⟨⟨hpath, hbefore⟩, hzero⟩ := Option.ite_none_right_eq_some.mp hi
    exact ⟨hpath, hbefore, (Option.some.inj hzero).symm⟩
  refine ⟨⟨fun name i hi => ?_, nofun, fun n i hi => ?_, fun m n i hm _ => ?_, fun i hi => ?_,
    fun hbefore => ?_⟩, fun pid => ⟨rfl, rfl, nofun⟩⟩
  · rw [(hname name i hi).2.2]
    exact Nat.one_pos
  · cases (hname _ i hi).1
  · cases (hname _ i hm).1
  · obtain ⟨text, htext⟩ := Option.isSome_iff_exists.mp (hname _ i hi).2.1
    exact Or.inl ⟨rfl, by rw [htext]; rfl⟩
  · show (if Name.path = Name.path ∧ before.isSome then some 0 else none) ≠ none
    rw [if_pos ⟨rfl, hbefore⟩]
    exact Option.some_ne_none _

/-- One step of the system keeps the invariant, and a file that is there keeps its text. -/
theorem step_kept {label : Label Choice Empty} (hu : Holds (FilesInv before program)
    (WriterOk program) u) (h : writersStep u label = some v) :
    Holds (FilesInv before program) (WriterOk program) v ∧ Keeps u.shared v.shared := by
  cases label with
  | env event => exact nomatch event
  | proc pid choice =>
    obtain ⟨shared, writer, hstep, rfl⟩ := step_proc_eq_some.mp h
    have hkept := writerStep_kept hu.1 (hu.2 pid) hstep
    refine ⟨⟨hkept.files, fun other => ?_⟩, hkept.keeps⟩
    show WriterOk program shared other (Function.update u.procs pid writer other)
    by_cases hother : other = pid
    · subst hother
      rw [Function.update_self]
      exact hkept.own
    · rw [Function.update_of_ne hother]
      exact (hu.2 other).of_unaffected (hkept.others other hother)

/-- What is kept by every single system call holds after any number of them, in any order of the
writers. -/
theorem run_holds (h : exec writersStep (initial before program) labels = some u) :
    Holds (FilesInv before program) (WriterOk program) u :=
  exec_invariant (fun _ _ _ hs hstep => (step_kept hs hstep).1) (initial_holds before program) h

/-- A content that is there stays. -/
theorem Keeps.content {s s' : Files} (h : Keeps s s') {text : Text}
    (hcontent : s.content = some text) : s'.content = some text := by
  obtain ⟨i, hi, rfl⟩ := Option.map_eq_some_iff.mp hcontent
  obtain ⟨hsame, hinodes⟩ := h i hi
  rw [Files.content, hsame, Option.map_some, hinodes]

/-- A file that is there stays as it is in all that follows. -/
theorem content_kept (hu : Holds (FilesInv before program) (WriterOk program) u) {text : Text}
    (hcontent : u.shared.content = some text) (h : exec writersStep u more = some v) :
    v.shared.content = some text :=
  (exec_invariant (I := fun w => Holds (FilesInv before program) (WriterOk program) w ∧
    w.shared.content = some text) (fun _ _ _ hs hstep =>
      ⟨(step_kept hs.1 hstep).1, (step_kept hs.1 hstep).2.content hs.2⟩) ⟨hu, hcontent⟩ h).2

/-- An exception or a refused link is noted of the writer that meets it. -/
theorem writerStep_notes {writer writer' : Writer} {choice : Choice}
    (h : writerStep s pid writer choice = some (s', writer')) (other : ℕ) :
    (s'.aborted other = s.aborted other ∨
      other = pid ∧ (choice = .abort ∨ ∃ count, choice = .writeFails count)) ∧
      (s'.torn other = s.torn other ∨ other = pid ∧ ∃ count, choice = .writeFails count) ∧
      (s'.refused other = s.refused other ∨ other = pid ∧ choice = .link true) := by
  unfold writerStep at h
  split at h
  case h_1 =>
    simp only [Option.ite_none_right_eq_some, Option.some.injEq, Prod.mk.injEq] at h
    obtain ⟨-, rfl, -⟩ := h
    exact ⟨Or.inl rfl, Or.inl rfl, Or.inl rfl⟩
  case h_3 job buffer entry rest count =>
    cases h
    by_cases hother : other = pid
    · exact ⟨Or.inr ⟨hother, Or.inr ⟨count, rfl⟩⟩, Or.inr ⟨hother, count, rfl⟩, Or.inl rfl⟩
    · exact ⟨Or.inl (Function.update_of_ne hother _ _), Or.inl (Function.update_of_ne hother _ _),
        Or.inl rfl⟩
  case h_5 =>
    cases h
    refine ⟨?_, Or.inl rfl, Or.inl rfl⟩
    by_cases hother : other = pid
    · exact Or.inr ⟨hother, Or.inl rfl⟩
    · exact Or.inl (Function.update_of_ne hother _ _)
  case h_8 job refused =>
    by_cases hrefused : refused = true
    · rw [if_pos hrefused] at h
      cases h
      refine ⟨Or.inl rfl, Or.inl rfl, ?_⟩
      by_cases hother : other = pid
      · exact Or.inr ⟨hother, by rw [hrefused]⟩
      · exact Or.inl (Function.update_of_ne hother _ _)
    · rw [if_neg hrefused] at h
      split at h
      · cases h
        exact ⟨Or.inl rfl, Or.inl rfl, Or.inl rfl⟩
      · cases h
        exact ⟨Or.inl rfl, Or.inl rfl, Or.inl rfl⟩
  all_goals cases h <;> exact ⟨Or.inl rfl, Or.inl rfl, Or.inl rfl⟩

/-- Some `write` of the writer fails in the run. -/
def Tears (labels : List (Label Choice Empty)) (pid : ℕ) : Prop :=
  ∃ count, Label.proc pid (Choice.writeFails count) ∈ labels

/-- Only what happens to a writer is noted of it: without an exception in its block it is not
aborted, and without a `write` that fails it is not torn. -/
theorem noted_of_mem (h : exec writersStep (initial before program) labels = some u) (pid : ℕ) :
    (Label.proc pid Choice.abort ∉ labels → ¬ Tears labels pid → u.shared.aborted pid = false) ∧
      (¬ Tears labels pid → u.shared.torn pid = false) ∧
      (Label.proc pid (Choice.link true) ∉ labels → u.shared.refused pid = false) := by
  have hstep : ∀ label, ∀ v w : System Files Writer, writersStep v label = some w →
      (label ≠ .proc pid .abort → (∀ count, label ≠ .proc pid (.writeFails count)) →
        w.shared.aborted pid = v.shared.aborted pid) ∧
        ((∀ count, label ≠ .proc pid (.writeFails count)) →
          w.shared.torn pid = v.shared.torn pid) ∧
        (label ≠ .proc pid (.link true) → w.shared.refused pid = v.shared.refused pid) := by
    intro label v w hw
    cases label with
    | env event => exact nomatch event
    | proc other choice =>
      obtain ⟨shared, writer, hwriter, rfl⟩ := step_proc_eq_some.mp hw
      obtain ⟨haborted, htorn, hrefused⟩ := writerStep_notes hwriter pid
      refine ⟨fun hlabel hlabels => haborted.resolve_right ?_,
        fun hlabels => htorn.resolve_right ?_, fun hlabel => hrefused.resolve_right ?_⟩
      · rintro ⟨rfl, rfl | ⟨count, rfl⟩⟩
        · exact hlabel rfl
        · exact hlabels count rfl
      · rintro ⟨rfl, count, rfl⟩
        exact hlabels count rfl
      · rintro ⟨rfl, rfl⟩
        exact hlabel rfl
  have hwhole : ¬ Tears labels pid → ∀ label ∈ labels, ∀ count,
      label ≠ .proc pid (.writeFails count) :=
    fun hlabels label hlabel count heq => hlabels ⟨count, heq ▸ hlabel⟩
  refine ⟨fun habort hlabels => ?_, fun hlabels => ?_, fun hlabels => ?_⟩
  · refine exec_invariant_of_mem (I := fun w => w.shared.aborted pid = false)
      (fun label hlabel v w hv hw => ?_) rfl h
    rw [(hstep label v w hw).1 (fun heq => habort (heq ▸ hlabel)) (hwhole hlabels label hlabel)]
    exact hv
  · refine exec_invariant_of_mem (I := fun w => w.shared.torn pid = false)
      (fun label hlabel v w hv hw => ?_) rfl h
    rw [(hstep label v w hw).2.1 (hwhole hlabels label hlabel)]
    exact hv
  · refine exec_invariant_of_mem (I := fun w => w.shared.refused pid = false)
      (fun label hlabel v w hv hw => ?_) rfl h
    rw [(hstep label v w hw).2.2 fun heq => hlabels (heq ▸ hlabel)]
    exact hv

/-- The file is there from before or holds what one writer has written, and never changes: a
beginning of its text, and unless a `write` of it fails all that it has written, which can be read
back. Where a writer has finished there is a file, unless its link was refused. Where all that have
begun have finished no temporary file is left, but a writer whose `close` or `unlink` fails leaves
its own. -/
theorem first_writer_wins (hu : exec writersStep (initial before program) labels = some u)
    (hv : exec writersStep u more = some v) :
    (∀ text, u.shared.content = some text → v.shared.content = some text) ∧
    (∀ text, u.shared.content = some text → before = some text ∨
      ∃ pid, text <+: (program pid).flatMap writeLine ∧
        (¬ Tears labels pid → ∃ written, text = written.flatMap writeLine ∧ written <+: program pid ∧
          (Label.proc pid Choice.abort ∉ labels → written = program pid) ∧
          ((∀ entry ∈ program pid, Writable entry) → readEntries text = written))) ∧
    (∀ pid job, u.procs pid = .done job → Label.proc pid (Choice.link true) ∉ labels →
      u.shared.content.isSome) ∧
    ((∀ pid, (∃ entries, u.procs pid = .start entries) ∨ ∃ job, u.procs pid = .done job) →
      ∀ n, u.shared.names (.temp n) = none) ∧
    ∀ pid job, u.procs pid = .failed job → u.shared.names (.temp job.temp) = some job.inode := by
  obtain ⟨hinv, hwriters⟩ := run_holds hu
  refine ⟨fun text htext => content_kept ⟨hinv, hwriters⟩ htext hv, fun text htext => ?_,
    fun pid job hdone hlabels => ?_, fun hall n => ?_, fun pid job hfailed => ?_⟩
  · obtain ⟨i, hi, rfl⟩ := Option.map_eq_some_iff.mp htext
    rcases hinv.published i hi with ⟨-, hbefore⟩ | ⟨pid, job, -, htext, hwrote⟩
    · exact Or.inl hbefore
    · have hbegins := hwrote.begins
      rw [List.append_nil] at hbegins
      obtain ⟨haborted, htorn, -⟩ := noted_of_mem hu pid
      refine Or.inr ⟨pid, htext.begins, fun hlabels => ⟨job.written, htext.exactly (htorn hlabels),
        hbegins, fun habort => ?_, fun hwritable => ?_⟩⟩
      · have hwhole := hwrote.whole (haborted habort hlabels)
        rwa [List.append_nil] at hwhole
      · rw [htext.exactly (htorn hlabels)]
        exact readEntries_written fun entry hentry => hwritable entry (hbegins.mem hentry)
  · have hwriter := hwriters pid
    rw [hdone] at hwriter
    obtain ⟨-, -, hpath⟩ := hwriter
    rw [Files.content, Option.isSome_map]
    exact Option.isSome_iff_ne_none.mpr (hpath ((noted_of_mem hu pid).2.2 hlabels))
  · by_contra hname
    obtain ⟨i, hi⟩ := Option.ne_none_iff_exists'.mp hname
    obtain ⟨pid, hpid⟩ := hinv.temps n i hi
    have hwriter := hwriters pid
    rcases hall pid with ⟨entries, hstart⟩ | ⟨job, hdone⟩
    · rw [hstart] at hwriter
      exact hwriter.2.2 i hpid
    · rw [hdone] at hwriter
      obtain ⟨hmade, hgone, -⟩ := hwriter
      rw [hmade.only i hpid] at hi
      exact hgone n hi
  · have hwriter := hwriters pid
    rw [hfailed] at hwriter
    exact Owns.named hwriter

end Whole

/-! ## Two writers -/

/-- The second writer links its file first. -/
def sampleLabels : List (Label Choice Empty) :=
  [.proc 0 (.create 0), .proc 1 (.create 1), .proc 1 .write, .proc 0 .write, .proc 1 .close,
    .proc 0 (.flush 3), .proc 0 .close, .proc 1 (.link false), .proc 0 (.link false),
    .proc 0 .unlink, .proc 1 .unlink]

/-- What the two writers write. -/
def sampleProgram (pid : ℕ) : List (Text × Text) :=
  if pid = 0 then [(ofString "a", ofString "0")]
  else if pid = 1 then [(ofString "a", ofString "1")]
  else []

/-- Of two writers the first one to link has its text under the name, both leave no temporary file
behind, and no further step changes the text. -/
theorem first_writer_wins_two :
    ∃ u, exec writersStep (initial none sampleProgram) sampleLabels = some u ∧
      u.shared.content = some (ofString "\"a\"=\"1\"\n") ∧
      (∀ n, u.shared.names (.temp n) = none) ∧
      ∀ more v, exec writersStep u more = some v →
        v.shared.content = some (ofString "\"a\"=\"1\"\n") := by
  obtain ⟨u, hu, hcontent, hprocs⟩ : ∃ u,
      exec writersStep (initial none sampleProgram) sampleLabels = some u ∧
        u.shared.content = some (ofString "\"a\"=\"1\"\n") ∧
        ∀ pid, (∃ entries, u.procs pid = .start entries) ∨ ∃ job, u.procs pid = .done job := by
    refine ⟨_, rfl, rfl, fun pid => ?_⟩
    by_cases hzero : pid = 0
    · subst hzero
      exact Or.inr ⟨_, rfl⟩
    · by_cases hone : pid = 1
      · subst hone
        exact Or.inr ⟨_, rfl⟩
      · exact Or.inl ⟨sampleProgram pid, by simp [initial, hzero, hone]⟩
  refine ⟨u, hu, hcontent, (first_writer_wins hu (exec_nil _ u)).2.2.2.1 hprocs, fun more v hv => ?_⟩
  exact (first_writer_wins hu hv).1 _ hcontent

end OpenDiamond.TextAttributes
