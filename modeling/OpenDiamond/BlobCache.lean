import OpenDiamond.DiamondObject
import OpenDiamond.Lib.Processes

/-!
# The blob cache and its garbage collector

The two directory entries of one blob, the processes that use it and the
pruner, with one atomic step for each system call. A blob is stored under its
signature, or under the signature with a dash while it waits to be deleted.
The two names can hold two files: the collector's argument about one file
needs that no rename puts an older file in the place of a newer one.
-/

namespace OpenDiamond.BlobCache

open Lib.Runs Lib.Processes DiamondObject

/-- A file of the cache directory. -/
structure File where
  /-- Content. -/
  data : Bytes
  /-- Time of the last modification. -/
  mtime : ℕ
  deriving DecidableEq

/-- Where `prune` is, with its `expires`. The names of other blobs do not
matter here. -/
inductive Pruner where
  | idle
  | listLive (expires : ℕ)
  | statLive (expires : ℕ)
  | renameLive (expires : ℕ)
  | listWaiting (expires : ℕ)
  | statWaiting (expires : ℕ)
  | unlinkWaiting (expires : ℕ)
  deriving DecidableEq

/-- The directory, the clock and the pruner, with the times of the completed
accesses and the `expires` values used so far. -/
structure Shared where
  /-- `time.time()`. -/
  clock : ℕ
  /-- The file named by the signature. -/
  live : Option File
  /-- The file named by the signature and `GC_SUFFIX`. -/
  waiting : Option File
  /-- The pruner. -/
  pruner : Pruner
  /-- Times at which an `_access` completed. -/
  accessed : List ℕ
  /-- `expires` of every prune started. -/
  expires : List ℕ

/-- The calls a process can make. -/
inductive Op where
  | contains
  | getitem
  | executablePath
  | add (data : Bytes)
  deriving DecidableEq

/-- The operation handed to `_try_with_rescue`; after the access with the time
at which that completed. -/
inductive Task where
  | utime (op : Op)
  | read (time : ℕ)
  | link (time : ℕ)
  | copy (time : ℕ)
  deriving DecidableEq

/-- Where `_try_with_rescue` is. -/
inductive Attempt where
  | first
  | rescue
  | second
  deriving DecidableEq

/-- A process: before its call, inside it, or after it. -/
inductive Proc where
  | idle
  | running (task : Task) (attempt : Attempt)
  | adding (temp : File)
  | returned (time : ℕ) (data : Bytes)
  | finished
  | keyError
  | ioError (time : ℕ)
  deriving DecidableEq

/-- What a step leaves to chance: which call is made, whether the executable
is there or can be linked, whether the temporary file is still there. -/
inductive Choice where
  | start (op : Op)
  | next (lucky : Bool)
  deriving DecidableEq

/-- The effect of a system call on the directory. -/
inductive SystemCall where
  | none
  | utime
  | rescue
  | link (file : File)

/-- `os.utime` and `os.rename` on the two names; a call that fails changes
nothing. -/
def Shared.apply (s : Shared) : SystemCall → Shared
  | .none => s
  | .utime =>
    match s.live with
    | some file =>
      { s with live := some { file with mtime := s.clock }, accessed := s.clock :: s.accessed }
    | none => s
  | .rescue =>
    match s.waiting with
    | some file => { s with live := some file, waiting := none }
    | none => s
  | .link file =>
    match s.live with
    | some _ => s
    | none => { s with live := some file }

/-- How a process goes on after its access. -/
def afterAccess (time : ℕ) (lucky : Bool) : Op → Proc
  | .getitem => .running (.read time) .first
  -- `os.path.exists(dest)`
  | .executablePath => if lucky then .finished else .running (.link time) .first
  | _ => .finished

/-- The exception handler of `_try_with_rescue`: rescue the blob after a first
failure, pass the exception on after the second. -/
def retry (task : Task) (failed : Proc) : Attempt → Proc
  | .second => failed
  | _ => .running task .rescue

/-- The next system call of a process and where it is afterwards. -/
def nextCall (sha256 : Bytes → String) (sig : String) (s : Shared) :
    Proc → Choice → Option (SystemCall × Proc)
  | .idle, .start (.add data) =>
    -- adding other data concerns other names
    if sha256 data = sig then some (.none, .adding ⟨data, s.clock⟩) else none
  | .idle, .start op => some (.none, .running (.utime op) .first)
  | .adding temp, .next lucky => some (if lucky then .link temp else .none, .finished)
  | .running task .rescue, .next _ => some (.rescue, .running task .second)
  | .running (.utime op) attempt, .next lucky =>
    match s.live with
    | some _ => some (.utime, afterAccess s.clock lucky op)
    | none => some (.none, retry (.utime op) .keyError attempt)
  | .running (.read time) attempt, .next _ =>
    match s.live with
    | some file => some (.none, .returned time file.data)
    | none => some (.none, retry (.read time) (.ioError time) attempt)
  | .running (.link time) attempt, .next lucky =>
    if s.live.isSome && lucky then some (.none, .finished)
    else some (.none, .running (.copy time) attempt)
  | .running (.copy time) attempt, .next _ =>
    match s.live with
    | some _ => some (.none, .finished)
    | none => some (.none, retry (.link time) (.ioError time) attempt)
  | _, _ => none

/-- A step of a process. -/
def call (sha256 : Bytes → String) (sig : String) (s : Shared) (_ : ℕ) (p : Proc)
    (choice : Choice) : Option (Shared × Proc) :=
  (nextCall sha256 sig s p choice).map fun next => (s.apply next.1, next.2)

/-- A step that no process of the cache makes. -/
inductive Event where
  | tick (seconds : ℕ)
  | prune (expires : ℕ)
  | pruner
  deriving DecidableEq

/-- The next step of `prune`. -/
def prunerStep (s : Shared) : Shared :=
  match s.pruner with
  | .idle => s
  | .listLive e => { s with pruner := if s.live.isSome then .statLive e else .listWaiting e }
  | .statLive e =>
    match s.live with
    | some file =>
      { s with pruner := if file.mtime < e then .renameLive e else .listWaiting e }
    | none => { s with pruner := .listWaiting e }
  | .renameLive e =>
    match s.live with
    | some file => { s with live := none, waiting := some file, pruner := .listWaiting e }
    | none => { s with pruner := .listWaiting e }
  | .listWaiting e =>
    { s with pruner := if s.waiting.isSome then .statWaiting e else .idle }
  | .statWaiting e =>
    match s.waiting with
    | some file => { s with pruner := if file.mtime < e then .unlinkWaiting e else .idle }
    | none => { s with pruner := .idle }
  | .unlinkWaiting _ => { s with waiting := none, pruner := .idle }

/-- The clock, and the one pruner. -/
def env (s : Shared) : Event → Option Shared
  | .tick seconds => some { s with clock := s.clock + seconds }
  | .prune expires =>
    if s.pruner = .idle then
      some { s with pruner := .listLive expires, expires := expires :: s.expires }
    else none
  | .pruner => if s.pruner = .idle then none else some (prunerStep s)

/-- The step function of the whole system. -/
abbrev cacheStep (sha256 : Bytes → String) (sig : String) :
    System Shared Proc → Label Choice Event → Option (System Shared Proc) :=
  step (call sha256 sig) env

/-! ## The condition -/

/-- The pruner has seen an old modification time and not yet renamed. -/
def Shared.Pending (s : Shared) : Prop := ∃ e, s.pruner = .renameLive e

/-- A rescue replaces no newer file, and none at all under the pruner's hands. -/
def RescueGuard (s : Shared) (_ : ℕ) (p : Proc) (_ : Choice) : Prop :=
  ∀ task, p = .running task .rescue → ∀ f g, s.live = some f → s.waiting = some g →
    f.mtime ≤ g.mtime ∧ ¬s.Pending

/-- The pruner's rename replaces no newer file. -/
def PruneGuard (s : Shared) (event : Event) : Prop :=
  event = .pruner → s.Pending → ∀ f g, s.live = some f → s.waiting = some g → g.mtime ≤ f.mtime

/-- No rename replaces a newer file by an older one, and no rescue replaces a
file while the pruner is between its stat and its rename. -/
abbrev NoStaleRename : System Shared Proc → Label Choice Event → Prop :=
  stepGuard RescueGuard PruneGuard

/-! ## The invariant -/

/-- No prune so far used a later `expires`. -/
def Shared.Safe (s : Shared) (time : ℕ) : Prop := ∀ e ∈ s.expires, e ≤ time

instance (s : Shared) (time : ℕ) : Decidable (s.Safe time) :=
  inferInstanceAs (Decidable (∀ e ∈ s.expires, e ≤ time))

/-- A file at least as new as the time. -/
def Fresh (time : ℕ) (entry : Option File) : Prop := ∃ file, entry = some file ∧ time ≤ file.mtime

/-- The `expires` of the running prune, if there is one. -/
def Pruner.expires? : Pruner → Option ℕ
  | .idle => none
  | .listLive e | .statLive e | .renameLive e | .listWaiting e | .statWaiting e
  | .unlinkWaiting e => some e

section Invariant

variable (sha256 : Bytes → String) (sig : String)

/-- What holds of the directory and the pruner. -/
structure SharedInv (s : Shared) : Prop where
  /-- Files of the blob hold its data. -/
  content : ∀ file, s.live = some file ∨ s.waiting = some file → sha256 file.data = sig
  /-- Accesses completed in the past. -/
  past : ∀ time ∈ s.accessed, time ≤ s.clock
  /-- The running prune is on record. -/
  recorded : ∀ e, s.pruner.expires? = some e → e ∈ s.expires
  /-- Only the pruner takes the live file away. -/
  pending : s.Pending → s.live.isSome
  /-- Only the pruner puts a file in the waiting place. -/
  expired : ∀ e file, s.pruner = .unlinkWaiting e → s.waiting = some file → file.mtime < e
  /-- A file as new as an access is there while no prune may take it. -/
  kept : ∀ time ∈ s.accessed, s.Safe time → Fresh time s.live ∨ Fresh time s.waiting

/-- The time of the access that an operation after it relies on. -/
def Task.time? : Task → Option ℕ
  | .utime _ => none
  | .read time | .link time | .copy time => some time

/-- What holds of a process after its access. -/
def TaskOk (s : Shared) (time : ℕ) : Attempt → Prop
  | .first => time ∈ s.accessed
  | .rescue => time ∈ s.accessed ∧ (s.Safe time → s.Pending → Fresh time s.waiting)
  | .second => time ∈ s.accessed ∧ (s.Safe time → Fresh time s.live ∧ ¬s.Pending)

/-- What holds of every process. -/
def ProcOk (s : Shared) (_ : ℕ) : Proc → Prop
  | .running task attempt => ∀ time, task.time? = some time → TaskOk s time attempt
  | .adding temp => sha256 temp.data = sig
  | .returned _ data => sha256 data = sig
  | .ioError time => ¬s.Safe time
  | _ => True

/-- What a system call needs to keep the invariant. -/
def CallOk (s : Shared) : SystemCall → Prop
  | .rescue => ∀ f g, s.live = some f → s.waiting = some g → f.mtime ≤ g.mtime ∧ ¬s.Pending
  | .link file => sha256 file.data = sig
  | _ => True

end Invariant

variable {sha256 : Bytes → String} {sig : String} {s : Shared}

/-- A file that is younger than a fresh one is fresh. -/
theorem fresh_of_le {time : ℕ} {f g : File} {entry : Option File} (he : entry = some g)
    (hle : f.mtime ≤ g.mtime) (hf : Fresh time (some f)) : Fresh time entry := by
  obtain ⟨file, heq, htime⟩ := hf
  cases heq
  exact ⟨g, he, htime.trans hle⟩

/-- A file that is not there is not fresh. -/
theorem not_fresh_none {time : ℕ} : ¬Fresh time none := by
  rintro ⟨_, h, _⟩
  cases h

/-- The system calls of the processes keep the invariant: files of the blob have its data, and one
as new as an access is there as long as no prune may take it. -/
theorem apply_inv (hs : SharedInv sha256 sig s) {c : SystemCall} (hc : CallOk sha256 sig s c) :
    SharedInv sha256 sig (s.apply c) := by
  cases c with
  | none => exact hs
  | utime =>
    cases hl : s.live with
    | none => simpa only [Shared.apply, hl] using hs
    | some file =>
      simp only [Shared.apply, hl]
      refine ⟨?_, ?_, hs.recorded, fun _ => rfl, hs.expired, ?_⟩
      · rintro f (hf | hf)
        · cases hf
          exact hs.content file (Or.inl hl)
        · exact hs.content f (Or.inr hf)
      · intro time htime
        rcases List.mem_cons.mp htime with rfl | htime
        · exact le_rfl
        · exact hs.past time htime
      · intro time htime _
        refine Or.inl ⟨_, rfl, ?_⟩
        rcases List.mem_cons.mp htime with rfl | htime
        · exact le_rfl
        · exact hs.past time htime
  | rescue =>
    cases hw : s.waiting with
    | none => simpa only [Shared.apply, hw] using hs
    | some g =>
      simp only [Shared.apply, hw]
      refine ⟨?_, hs.past, hs.recorded, fun _ => rfl, fun _ _ _ h => (by cases h), ?_⟩
      · rintro f (hf | hf)
        · cases hf
          exact hs.content g (Or.inr hw)
        · cases hf
      · intro time htime hsafe
        rcases hs.kept time htime hsafe with hlive | hwait
        · cases hl : s.live with
          | none => exact absurd (hl ▸ hlive) not_fresh_none
          | some f => exact Or.inl (fresh_of_le rfl (hc f g hl hw).1 (hl ▸ hlive))
        · exact Or.inl (hw ▸ hwait)
  | link file =>
    cases hl : s.live with
    | some f => simpa only [Shared.apply, hl] using hs
    | none =>
      simp only [Shared.apply, hl]
      refine ⟨?_, hs.past, hs.recorded, fun _ => rfl, hs.expired, ?_⟩
      · rintro f (hf | hf)
        · cases hf
          exact hc
        · exact hs.content f (Or.inr hf)
      · intro time htime hsafe
        rcases hs.kept time htime hsafe with hlive | hwait
        · exact absurd (hl ▸ hlive) not_fresh_none
        · exact Or.inr hwait

/-- What a process relies on survives a change of the shared state that keeps
the accesses, the `expires` values, and what it relies on after its rescue. -/
theorem procOk_mono {s t : Shared} {pid : ℕ} {p : Proc} (hp : ProcOk sha256 sig s pid p)
    (hacc : ∀ time ∈ s.accessed, time ∈ t.accessed)
    (hexp : ∀ time, t.Safe time → s.Safe time)
    (hrescue : ∀ time ∈ s.accessed, t.Safe time → t.Pending →
      (s.Pending → Fresh time s.waiting) → Fresh time t.waiting)
    (hsecond : ∀ time ∈ s.accessed, t.Safe time → Fresh time s.live → ¬s.Pending →
      Fresh time t.live ∧ ¬t.Pending) :
    ProcOk sha256 sig t pid p := by
  cases p with
  | running task attempt =>
    intro time htime
    have hold := hp time htime
    cases attempt with
    | first => exact hacc time hold
    | rescue =>
      refine ⟨hacc time hold.1, fun hsafe hpend => ?_⟩
      exact hrescue time hold.1 hsafe hpend (hold.2 (hexp time hsafe))
    | second =>
      refine ⟨hacc time hold.1, fun hsafe => ?_⟩
      obtain ⟨hlive, hno⟩ := hold.2 (hexp time hsafe)
      exact hsecond time hold.1 hsafe hlive hno
  | ioError time => exact fun hsafe => hp (hexp time hsafe)
  | adding temp => exact hp
  | returned time data => exact hp
  | idle => trivial
  | finished => trivial
  | keyError => trivial

/-- The system calls of one process do not disturb another. -/
theorem apply_procOk (hs : SharedInv sha256 sig s) {c : SystemCall}
    (hc : CallOk sha256 sig s c) {pid : ℕ} {p : Proc} (hp : ProcOk sha256 sig s pid p) :
    ProcOk sha256 sig (s.apply c) pid p := by
  cases c with
  | none => exact hp
  | utime =>
    cases hl : s.live with
    | none => simpa only [Shared.apply, hl] using hp
    | some file =>
      simp only [Shared.apply, hl]
      refine procOk_mono hp ?_ (fun _ h => h) ?_ ?_
      · exact fun _ h => List.mem_cons_of_mem _ h
      · exact fun _ _ _ hpend hw => hw hpend
      · exact fun time htime _ _ hno => ⟨⟨_, rfl, hs.past time htime⟩, hno⟩
  | rescue =>
    cases hw : s.waiting with
    | none => simpa only [Shared.apply, hw] using hp
    | some g =>
      simp only [Shared.apply, hw]
      refine procOk_mono hp ?_ ?_ ?_ ?_
      · exact fun _ h => h
      · exact fun _ h => h
      · intro time _ _ hpend _
        -- a pending rename means that there is a live file to replace
        obtain ⟨f, hf⟩ := Option.isSome_iff_exists.mp (hs.pending hpend)
        exact absurd hpend (hc f g hf hw).2
      · intro time _ _ hlive hno
        obtain ⟨f, hf, htime⟩ := hlive
        exact ⟨⟨g, rfl, htime.trans (hc f g hf hw).1⟩, hno⟩
  | link file =>
    cases hl : s.live with
    | some f => simpa only [Shared.apply, hl] using hp
    | none =>
      simp only [Shared.apply, hl]
      refine procOk_mono hp ?_ ?_ ?_ ?_
      · exact fun _ h => h
      · exact fun _ h => h
      · exact fun _ _ _ hpend hw => hw hpend
      · intro time _ _ hlive _
        exact absurd (hl ▸ hlive) not_fresh_none

/-- What a step of the pruner means for the invariant and for the processes. -/
def Kept (sha256 : Bytes → String) (sig : String) (s t : Shared) : Prop :=
  SharedInv sha256 sig t ∧ ∀ pid p, ProcOk sha256 sig s pid p → ProcOk sha256 sig t pid p

/-- A step of the pruner that only looks, and is not about to rename, keeps the invariant with what
it has seen. -/
theorem kept_of_pruner (hs : SharedInv sha256 sig s) {pruner : Pruner}
    (hrec : ∀ e, pruner.expires? = some e → e ∈ s.expires)
    (hrename : ∀ e, pruner ≠ .renameLive e)
    (hunlink : ∀ e file, pruner = .unlinkWaiting e → s.waiting = some file → file.mtime < e) :
    Kept sha256 sig s { s with pruner } := by
  have hno : ¬Shared.Pending { s with pruner } := fun ⟨e, he⟩ => hrename e he
  refine ⟨⟨hs.content, hs.past, hrec, fun h => absurd h hno, hunlink, hs.kept⟩, fun pid p hp => ?_⟩
  refine procOk_mono hp ?_ ?_ ?_ ?_
  · exact fun _ h => h
  · exact fun _ h => h
  · exact fun _ _ _ hpend _ => absurd hpend hno
  · exact fun _ _ _ hlive _ => ⟨hlive, hno⟩

/-- The stat of an expired live file: the file of every access it may not take
is waiting. -/
theorem kept_of_stat (hs : SharedInv sha256 sig s) {e : ℕ} {file : File}
    (he : e ∈ s.expires) (hl : s.live = some file) (hold : file.mtime < e) :
    Kept sha256 sig s { s with pruner := .renameLive e } := by
  have hstale : ∀ time, s.Safe time → ¬Fresh time s.live := by
    rintro time hsafe ⟨f, hf, htime⟩
    rw [hl] at hf
    cases hf
    have hle := hsafe e he
    omega
  refine ⟨⟨hs.content, hs.past, ?_, fun _ => by rw [hl]; rfl, fun _ _ h => (by cases h), hs.kept⟩,
    fun pid p hp => ?_⟩
  · intro e' h
    cases h
    exact he
  · refine procOk_mono hp ?_ ?_ ?_ ?_
    · exact fun _ h => h
    · exact fun _ h => h
    · intro time htime hsafe _ _
      exact (hs.kept time htime hsafe).resolve_left (hstale time hsafe)
    · exact fun time _ hsafe hlive _ => absurd hlive (hstale time hsafe)

/-- The rename of the live file keeps the invariant where it meets no newer one under the waiting
name. -/
theorem kept_of_rename (hs : SharedInv sha256 sig s) {e : ℕ} {file : File}
    (hp : s.pruner = .renameLive e) (hl : s.live = some file)
    (hnewer : ∀ g, s.waiting = some g → g.mtime ≤ file.mtime) :
    Kept sha256 sig s
      { s with live := none, waiting := some file, pruner := .listWaiting e } := by
  have hpend : s.Pending := ⟨e, hp⟩
  have hno : ¬Shared.Pending
      { s with live := none, waiting := some file, pruner := .listWaiting e } :=
    fun ⟨_, h⟩ => by cases h
  refine ⟨⟨?_, hs.past, ?_, fun h => absurd h hno, fun _ _ h => (by cases h), ?_⟩,
    fun pid p hproc => ?_⟩
  · rintro f (hf | hf)
    · cases hf
    · cases hf
      exact hs.content file (Or.inl hl)
  · intro e' h
    cases h
    exact hs.recorded e (by rw [hp]; rfl)
  · intro time htime hsafe
    rcases hs.kept time htime hsafe with hlive | ⟨g, hg, hle⟩
    · exact Or.inr (hl ▸ hlive)
    · exact Or.inr ⟨file, rfl, hle.trans (hnewer g hg)⟩
  · refine procOk_mono hproc ?_ ?_ ?_ ?_
    · exact fun _ h => h
    · exact fun _ h => h
    · exact fun _ _ _ h _ => absurd h hno
    · exact fun _ _ _ _ h => absurd hpend h

/-- The unlink of a waiting file that was expired when the pruner looked takes nothing away that was
accessed since. -/
theorem kept_of_unlink (hs : SharedInv sha256 sig s) {e : ℕ} (hp : s.pruner = .unlinkWaiting e) :
    Kept sha256 sig s { s with waiting := none, pruner := .idle } := by
  have he := hs.recorded e (by rw [hp]; rfl)
  have hno : ¬Shared.Pending { s with waiting := none, pruner := .idle } :=
    fun ⟨_, h⟩ => by cases h
  refine ⟨⟨?_, hs.past, fun _ h => (by cases h), fun h => absurd h hno, fun _ _ h => (by cases h),
    ?_⟩, fun pid p hproc => ?_⟩
  · rintro f (hf | hf)
    · exact hs.content f (Or.inl hf)
    · cases hf
  · intro time htime hsafe
    rcases hs.kept time htime hsafe with hlive | ⟨g, hg, hle⟩
    · exact Or.inl hlive
    · have hold := hs.expired e g hp hg
      have hsafe := hsafe e he
      omega
  · refine procOk_mono hproc ?_ ?_ ?_ ?_
    · exact fun _ h => h
    · exact fun _ h => h
    · exact fun _ _ _ h _ => absurd h hno
    · exact fun _ _ _ hlive _ => ⟨hlive, hno⟩

/-- Every step of the pruner keeps the invariant, if it does not rename onto a newer file. -/
theorem prunerStep_kept (hs : SharedInv sha256 sig s) (hg : PruneGuard s .pruner) :
    Kept sha256 sig s (prunerStep s) := by
  obtain ⟨clock, live, waiting, pruner, accessed, expires⟩ := s
  have hrec := hs.recorded
  cases pruner with
  | idle => exact ⟨hs, fun _ _ h => h⟩
  | listLive e =>
    simp only [prunerStep]
    split <;> exact kept_of_pruner hs hrec (by simp) (by simp)
  | statLive e =>
    cases live with
    | none => exact kept_of_pruner hs hrec (by simp) (by simp)
    | some file =>
      simp only [prunerStep]
      split
      · rename_i hold
        exact kept_of_stat hs (hrec e rfl) rfl hold
      · exact kept_of_pruner hs hrec (by simp) (by simp)
  | renameLive e =>
    cases live with
    | none => exact kept_of_pruner hs hrec (by simp) (by simp)
    | some file => exact kept_of_rename hs rfl rfl (fun g hw => hg rfl ⟨e, rfl⟩ file g rfl hw)
  | listWaiting e =>
    simp only [prunerStep]
    split
    · exact kept_of_pruner hs hrec (by simp) (by simp)
    · exact kept_of_pruner hs (fun _ h => (by cases h)) (by simp) (by simp)
  | statWaiting e =>
    cases waiting with
    | none => exact kept_of_pruner hs (fun _ h => (by cases h)) (by simp) (by simp)
    | some file =>
      simp only [prunerStep]
      split
      · rename_i hold
        refine kept_of_pruner hs hrec (by simp) ?_
        intro e' f he hf
        cases he
        cases hf
        exact hold
      · exact kept_of_pruner hs (fun _ h => (by cases h)) (by simp) (by simp)
  | unlinkWaiting e => exact kept_of_unlink hs rfl

/-- The steps of the clock and of the pruner keep the invariant. -/
theorem env_kept {event : Event} {t : Shared} (hs : SharedInv sha256 sig s)
    (hg : PruneGuard s event) (h : env s event = some t) : Kept sha256 sig s t := by
  cases event with
  | tick seconds =>
    cases h
    refine ⟨⟨hs.content, ?_, hs.recorded, hs.pending, hs.expired, hs.kept⟩, fun pid p hp => ?_⟩
    · exact fun time htime => (hs.past time htime).trans (Nat.le_add_right _ _)
    · refine procOk_mono hp ?_ ?_ ?_ ?_
      · exact fun _ h => h
      · exact fun _ h => h
      · exact fun _ _ _ hpend hw => hw hpend
      · exact fun _ _ _ hlive hno => ⟨hlive, hno⟩
  | prune expires =>
    simp only [env] at h
    split at h
    · cases h
      have hno : ¬Shared.Pending
          { s with pruner := .listLive expires, expires := expires :: s.expires } :=
        fun ⟨_, h⟩ => by cases h
      have hsafe : ∀ time, Shared.Safe
          { s with pruner := .listLive expires, expires := expires :: s.expires } time →
            s.Safe time := fun time h e he => h e (List.mem_cons_of_mem _ he)
      refine ⟨⟨hs.content, hs.past, ?_, fun h => absurd h hno, fun _ _ h => (by cases h), ?_⟩,
        fun pid p hp => ?_⟩
      · intro e he
        cases he
        exact List.mem_cons_self
      · exact fun time htime h => hs.kept time htime (hsafe time h)
      · refine procOk_mono hp ?_ hsafe ?_ ?_
        · exact fun _ h => h
        · exact fun _ _ _ h _ => absurd h hno
        · exact fun _ _ _ hlive _ => ⟨hlive, hno⟩
    · cases h
  | pruner =>
    simp only [env] at h
    split at h
    · cases h
    · cases h
      exact prunerStep_kept hs hg

/-! ## The steps of the processes -/

/-- After a rescue the live file is as new as the access, and stays. -/
theorem taskOk_rescue (hs : SharedInv sha256 sig s) {time : ℕ}
    (hc : CallOk sha256 sig s .rescue) (h : TaskOk s time .rescue) :
    TaskOk (s.apply .rescue) time .second := by
  obtain ⟨hmem, hwait⟩ := h
  cases hw : s.waiting with
  | none =>
    simp only [Shared.apply, hw]
    refine ⟨hmem, fun hsafe => ⟨?_, fun hpend => ?_⟩⟩
    · exact (hs.kept time hmem hsafe).resolve_right (hw ▸ not_fresh_none)
    · exact not_fresh_none (hw ▸ hwait hsafe hpend)
  | some g =>
    simp only [Shared.apply, hw]
    refine ⟨hmem, fun hsafe => ⟨?_, fun hpend => ?_⟩⟩
    · rcases hs.kept time hmem hsafe with ⟨f, hf, hle⟩ | hfresh
      · exact ⟨g, rfl, hle.trans (hc f g hf hw).1⟩
      · exact hw ▸ hfresh
    · obtain ⟨f, hf⟩ := Option.isSome_iff_exists.mp (hs.pending hpend)
      exact (hc f g hf hw).2 hpend

/-- An operation that finds no live file: after a first failure the blob can be
rescued, and a second failure means that a prune could take it. -/
theorem procOk_retry (hs : SharedInv sha256 sig s) (hl : s.live = none) {task : Task}
    {attempt : Attempt} {time : ℕ} (htask : task.time? = some time)
    (hattempt : attempt ≠ .rescue) (h : TaskOk s time attempt) (pid : ℕ) :
    ProcOk sha256 sig s pid (retry task (.ioError time) attempt) := by
  have hno : ¬s.Pending := fun hpend => by
    have hsome := hs.pending hpend
    rw [hl] at hsome
    cases hsome
  cases attempt with
  | first =>
    intro time' htime'
    cases htask.symm.trans htime'
    exact ⟨h, fun _ hpend => absurd hpend hno⟩
  | rescue => exact absurd rfl hattempt
  | second => exact fun hsafe => not_fresh_none (hl ▸ (h.2 hsafe).1)

/-- An access that completes puts its time on record. -/
theorem procOk_afterAccess {file : File} (hl : s.live = some file) (lucky : Bool) (op : Op)
    (pid : ℕ) : ProcOk sha256 sig (s.apply .utime) pid (afterAccess s.clock lucky op) := by
  have hmem : s.clock ∈ (s.apply .utime).accessed := by
    simp only [Shared.apply, hl]
    exact List.mem_cons_self
  cases op with
  | getitem =>
    intro time htime
    cases htime
    exact hmem
  | executablePath =>
    cases lucky with
    | true => trivial
    | false =>
      intro time htime
      cases htime
      exact hmem
  | contains => trivial
  | add data => trivial

/-- The operations themselves, on a first or second attempt. -/
theorem nextCall_running {attempt : Attempt} (ha : attempt ≠ .rescue) (s : Shared) (task : Task)
    (lucky : Bool) :
    nextCall sha256 sig s (.running task attempt) (.next lucky) =
      match task with
      | .utime op =>
        match s.live with
        | some _ => some (.utime, afterAccess s.clock lucky op)
        | none => some (.none, retry (.utime op) .keyError attempt)
      | .read time =>
        match s.live with
        | some file => some (.none, .returned time file.data)
        | none => some (.none, retry (.read time) (.ioError time) attempt)
      | .link time =>
        if s.live.isSome && lucky then some (.none, .finished)
        else some (.none, .running (.copy time) attempt)
      | .copy time =>
        match s.live with
        | some _ => some (.none, .finished)
        | none => some (.none, retry (.link time) (.ioError time) attempt) := by
  cases attempt with
  | rescue => exact absurd rfl ha
  | first => cases task <;> rfl
  | second => cases task <;> rfl

/-- What the next system call of a process can be, with where the process is afterwards. -/
inductive NextCall (sha256 : Bytes → String) (sig : String) (s : Shared) :
    Proc → Choice → SystemCall → Proc → Prop
  | add {data : Bytes} (hdata : sha256 data = sig) :
    NextCall sha256 sig s .idle (.start (.add data)) .none (.adding ⟨data, s.clock⟩)
  | start {op : Op} (hop : ∀ data, op ≠ .add data) :
    NextCall sha256 sig s .idle (.start op) .none (.running (.utime op) .first)
  | adding (temp : File) (lucky : Bool) :
    NextCall sha256 sig s (.adding temp) (.next lucky) (if lucky then .link temp else .none) .finished
  | rescue (task : Task) (lucky : Bool) :
    NextCall sha256 sig s (.running task .rescue) (.next lucky) .rescue (.running task .second)
  | utime (op : Op) {attempt : Attempt} (lucky : Bool) {file : File} (ha : attempt ≠ .rescue)
    (hl : s.live = some file) :
    NextCall sha256 sig s (.running (.utime op) attempt) (.next lucky) .utime
      (afterAccess s.clock lucky op)
  | read (time : ℕ) {attempt : Attempt} (lucky : Bool) {file : File} (ha : attempt ≠ .rescue)
    (hl : s.live = some file) :
    NextCall sha256 sig s (.running (.read time) attempt) (.next lucky) .none
      (.returned time file.data)
  | link (time : ℕ) {attempt : Attempt} (lucky : Bool) (ha : attempt ≠ .rescue)
    (hlink : (s.live.isSome && lucky) = true) :
    NextCall sha256 sig s (.running (.link time) attempt) (.next lucky) .none .finished
  | copy (time : ℕ) {attempt : Attempt} (lucky : Bool) {file : File} (ha : attempt ≠ .rescue)
    (hl : s.live = some file) :
    NextCall sha256 sig s (.running (.copy time) attempt) (.next lucky) .none .finished
  | utimeFails (op : Op) {attempt : Attempt} (lucky : Bool) (ha : attempt ≠ .rescue)
    (hl : s.live = none) :
    NextCall sha256 sig s (.running (.utime op) attempt) (.next lucky) .none
      (retry (.utime op) .keyError attempt)
  | readFails (time : ℕ) {attempt : Attempt} (lucky : Bool) (ha : attempt ≠ .rescue)
    (hl : s.live = none) :
    NextCall sha256 sig s (.running (.read time) attempt) (.next lucky) .none
      (retry (.read time) (.ioError time) attempt)
  | linkFails (time : ℕ) {attempt : Attempt} (lucky : Bool) (ha : attempt ≠ .rescue)
    (hlink : ¬(s.live.isSome && lucky) = true) :
    NextCall sha256 sig s (.running (.link time) attempt) (.next lucky) .none
      (.running (.copy time) attempt)
  | copyFails (time : ℕ) {attempt : Attempt} (lucky : Bool) (ha : attempt ≠ .rescue)
    (hl : s.live = none) :
    NextCall sha256 sig s (.running (.copy time) attempt) (.next lucky) .none
      (retry (.link time) (.ioError time) attempt)

/-- The operation of a first or second attempt is one of the calls that a process can do next. -/
theorem nextCall_of_running {task : Task} {attempt : Attempt} {lucky : Bool} {c : SystemCall}
    {p' : Proc} (ha : attempt ≠ .rescue)
    (h : nextCall sha256 sig s (.running task attempt) (.next lucky) = some (c, p')) :
    NextCall sha256 sig s (.running task attempt) (.next lucky) c p' := by
  rw [nextCall_running ha] at h
  cases task with
  | link time =>
    simp only at h
    split at h
    · rename_i hlink
      cases h
      exact .link time lucky ha hlink
    · rename_i hlink
      cases h
      exact .linkFails time lucky ha hlink
  | utime op =>
    cases hl : s.live with
    | none =>
      simp only [hl] at h
      cases h
      exact .utimeFails op lucky ha hl
    | some file =>
      simp only [hl] at h
      cases h
      exact .utime op lucky ha hl
  | read time =>
    cases hl : s.live with
    | none =>
      simp only [hl] at h
      cases h
      exact .readFails time lucky ha hl
    | some file =>
      simp only [hl] at h
      cases h
      exact .read time lucky ha hl
  | copy time =>
    cases hl : s.live with
    | none =>
      simp only [hl] at h
      cases h
      exact .copyFails time lucky ha hl
    | some file =>
      simp only [hl] at h
      cases h
      exact .copy time lucky ha hl

/-- All that a process can do next. The invariants are derived from these cases. -/
theorem nextCall_cases {p p' : Proc} {choice : Choice} {c : SystemCall}
    (h : nextCall sha256 sig s p choice = some (c, p')) : NextCall sha256 sig s p choice c p' := by
  cases choice with
  | start op =>
    cases p with
    | idle =>
      cases op with
      | add data =>
        simp only [nextCall] at h
        split at h
        · rename_i hdata
          cases h
          exact .add hdata
        · cases h
      | _ =>
        cases h
        exact .start fun _ hop => nomatch hop
    | running task attempt => simp [nextCall] at h
    | _ => cases h
  | next lucky =>
    cases p with
    | adding temp =>
      cases h
      exact .adding temp lucky
    | running task attempt =>
      by_cases ha : attempt = .rescue
      · subst ha
        cases h
        exact .rescue task lucky
      · exact nextCall_of_running ha h
    | _ => cases h

/-- The next system call of a process keeps the invariant and establishes what
the process relies on afterwards. -/
theorem nextCall_ok (hs : SharedInv sha256 sig s) {pid : ℕ} {p p' : Proc} {choice : Choice}
    {c : SystemCall} (hp : ProcOk sha256 sig s pid p) (hg : RescueGuard s pid p choice)
    (h : nextCall sha256 sig s p choice = some (c, p')) :
    CallOk sha256 sig s c ∧ ProcOk sha256 sig (s.apply c) pid p' := by
  cases nextCall_cases h with
  | add hdata => exact ⟨trivial, hdata⟩
  | start _ => exact ⟨trivial, fun _ htask => nomatch htask⟩
  | adding temp lucky =>
    cases lucky with
    | false => exact ⟨trivial, trivial⟩
    | true => exact ⟨hp, trivial⟩
  | rescue task lucky =>
    have hc : CallOk sha256 sig s .rescue := hg task rfl
    exact ⟨hc, fun time htime => taskOk_rescue hs hc (hp time htime)⟩
  | utime op lucky ha hl => exact ⟨trivial, procOk_afterAccess hl lucky op pid⟩
  | read time lucky ha hl => exact ⟨trivial, hs.content _ (Or.inl hl)⟩
  | link time lucky ha hlink => exact ⟨trivial, trivial⟩
  | copy time lucky ha hl => exact ⟨trivial, trivial⟩
  | utimeFails op lucky ha hl =>
    rename_i attempt
    refine ⟨trivial, ?_⟩
    cases attempt with
    | first => exact fun _ htask => nomatch htask
    | rescue => exact absurd rfl ha
    | second => trivial
  | readFails time lucky ha hl => exact ⟨trivial, procOk_retry hs hl rfl ha (hp time rfl) pid⟩
  | linkFails time lucky ha hlink => exact ⟨trivial, hp⟩
  | copyFails time lucky ha hl => exact ⟨trivial, procOk_retry hs hl rfl ha (hp time rfl) pid⟩

/-- A system call keeps what holds of the directory, what holds of its process, and what holds of
every other one. -/
theorem call_kept (hs : SharedInv sha256 sig s) {pid : ℕ} {p p' : Proc} {choice : Choice}
    {t : Shared} (hp : ProcOk sha256 sig s pid p) (hg : RescueGuard s pid p choice)
    (h : call sha256 sig s pid p choice = some (t, p')) :
    SharedInv sha256 sig t ∧ ProcOk sha256 sig t pid p' ∧
      ∀ other q, other ≠ pid → ProcOk sha256 sig s other q → ProcOk sha256 sig t other q := by
  obtain ⟨⟨c, q⟩, hnext, heq⟩ := Option.map_eq_some_iff.mp h
  cases heq
  obtain ⟨hc, hown⟩ := nextCall_ok hs hp hg hnext
  exact ⟨apply_inv hs hc, hown, fun _ _ _ hq => apply_procOk hs hc hq⟩

/-- A start of the system: any files of the blob, no process and no prune. -/
structure Initial (sha256 : Bytes → String) (sig : String) (s : System Shared Proc) : Prop where
  /-- Files of the blob hold its data. -/
  content : ∀ file, s.shared.live = some file ∨ s.shared.waiting = some file →
    sha256 file.data = sig
  /-- The pruner has not started. -/
  pruner : s.shared.pruner = .idle
  /-- No access is on record. -/
  accessed : s.shared.accessed = []
  /-- No process has started. -/
  procs : ∀ pid, s.procs pid = .idle

/-- The invariant holds at the end of every run without a stale rename, by induction over its steps,
each of which meets the condition. -/
theorem run_holds {s t : System Shared Proc} (hs : Initial sha256 sig s)
    {labels : List (Label Choice Event)}
    (hg : Guarded (cacheStep sha256 sig) NoStaleRename s labels)
    (hr : exec (cacheStep sha256 sig) s labels = some t) :
    Holds (SharedInv sha256 sig) (ProcOk sha256 sig) t := by
  refine exec_holds (fun _ _ _ _ _ _ hinv hok hguard h => call_kept hinv hok hguard h)
    (fun _ _ _ hinv hguard h => env_kept hinv hguard h) ⟨⟨hs.content, ?_, ?_, ?_, ?_, ?_⟩, ?_⟩ hg hr
  · intro time htime
    rw [hs.accessed] at htime
    cases htime
  · intro e he
    rw [hs.pruner] at he
    cases he
  · rintro ⟨e, he⟩
    rw [hs.pruner] at he
    cases he
  · intro e file he
    rw [hs.pruner] at he
    cases he
  · intro time htime
    rw [hs.accessed] at htime
    cases htime
  · intro pid
    rw [hs.procs]
    trivial

/-! ## Accessed blobs are kept -/

/-- How far a `__getitem__` is with the steps it made since its access. -/
def Reading (time : ℕ) (steps : ℕ) (p : Proc) : Prop :=
  (steps = 0 ∧ p = .running (.read time) .first) ∨
    (steps = 1 ∧ p = .running (.read time) .rescue) ∨
    (steps = 2 ∧ p = .running (.read time) .second) ∨
    (∃ data, p = .returned time data) ∨ p = .ioError time

/-- A lookup in its course goes one step further. -/
theorem reading_call {pid time steps : ℕ} {s s' : Shared} {p p' : Proc} {choice : Choice}
    (hp : Reading time steps p) (h : call sha256 sig s pid p choice = some (s', p')) :
    Reading time (steps + 1) p' := by
  obtain ⟨⟨c, q⟩, hnext, heq⟩ := Option.map_eq_some_iff.mp h
  cases heq
  rcases hp with ⟨rfl, rfl⟩ | ⟨rfl, rfl⟩ | ⟨rfl, rfl⟩ | ⟨_, rfl⟩ | rfl
  · cases nextCall_cases hnext with
    | read => exact Or.inr (Or.inr (Or.inr (Or.inl ⟨_, rfl⟩)))
    | readFails => exact Or.inr (Or.inl ⟨rfl, rfl⟩)
  · cases nextCall_cases hnext with
    | rescue => exact Or.inr (Or.inr (Or.inl ⟨rfl, rfl⟩))
    | read time lucky ha hl => exact absurd rfl ha
    | readFails time lucky ha hl => exact absurd rfl ha
  · cases nextCall_cases hnext with
    | read => exact Or.inr (Or.inr (Or.inr (Or.inl ⟨_, rfl⟩)))
    | readFails => exact Or.inr (Or.inr (Or.inr (Or.inr rfl)))
  · cases nextCall_cases hnext
  · cases nextCall_cases hnext

/-- A running process can always make its next step. -/
theorem cacheStep_running {s : System Shared Proc} {pid : ℕ} {task : Task} {attempt : Attempt}
    (hp : s.procs pid = .running task attempt) (lucky : Bool) :
    (cacheStep sha256 sig s (.proc pid (.next lucky))).isSome := by
  have hnext : (nextCall sha256 sig s.shared (.running task attempt) (.next lucky)).isSome := by
    by_cases ha : attempt = .rescue
    · subst ha
      rfl
    · rw [nextCall_running ha]
      cases task with
      | link time => dsimp only; split <;> rfl
      | _ => cases s.shared.live <;> rfl
  simpa [cacheStep, step, call, hp] using hnext

/-- In every run without a stale rename, the blob of a completed access stays
stored while no prune used a later `expires`; and a `__getitem__` past its
access returns data with the signature after at most three more steps. -/
theorem accessed_blob_kept {s s₁ s₂ : System Shared Proc} (hs : Initial sha256 sig s)
    {first second : List (Label Choice Event)}
    (hg : Guarded (cacheStep sha256 sig) NoStaleRename s (first ++ second))
    (h₁ : exec (cacheStep sha256 sig) s first = some s₁)
    (h₂ : exec (cacheStep sha256 sig) s₁ second = some s₂) :
    (∀ time ∈ s₂.shared.accessed, s₂.shared.Safe time →
      ∃ file, (s₂.shared.live = some file ∨ s₂.shared.waiting = some file) ∧
        sha256 file.data = sig) ∧
    ∀ pid time, s₁.procs pid = .running (.read time) .first → s₂.shared.Safe time →
      (∃ data, s₂.procs pid = .returned time data ∧ sha256 data = sig) ∨
        (second.countP (Label.isOf pid) < 3 ∧
          ∀ lucky, (cacheStep sha256 sig s₂ (.proc pid (.next lucky))).isSome) := by
  have hr : exec (cacheStep sha256 sig) s (first ++ second) = some s₂ :=
    exec_append_eq_some.mpr ⟨s₁, h₁, h₂⟩
  obtain ⟨hinv, hok⟩ := run_holds hs hg hr
  refine ⟨fun time htime hsafe => ?_, fun pid time hpid hsafe => ?_⟩
  · rcases hinv.kept time htime hsafe with ⟨file, hfile, _⟩ | ⟨file, hfile, _⟩
    · exact ⟨file, Or.inl hfile, hinv.content file (Or.inl hfile)⟩
    · exact ⟨file, Or.inr hfile, hinv.content file (Or.inr hfile)⟩
  · have hread := exec_local (R := Reading time) (n := 0)
      (fun n _ _ _ _ _ hp h => reading_call hp h) (Or.inl ⟨rfl, hpid⟩) h₂
    rw [Nat.zero_add] at hread
    have hproc := hok pid
    rcases hread with ⟨hn, hp⟩ | ⟨hn, hp⟩ | ⟨hn, hp⟩ | ⟨data, hp⟩ | hp
    · exact Or.inr ⟨by omega, cacheStep_running hp⟩
    · exact Or.inr ⟨by omega, cacheStep_running hp⟩
    · exact Or.inr ⟨by omega, cacheStep_running hp⟩
    · rw [hp] at hproc
      exact Or.inl ⟨data, hp, hproc⟩
    · rw [hp] at hproc
      exact absurd hsafe hproc

/-- A directory with the given files at time ten. -/
def atTen (live waiting : Option File) : System Shared Proc :=
  ⟨⟨10, live, waiting, .idle, [], []⟩, fun _ => .idle⟩

/-- The next step of a process that is not about to link. -/
abbrev nextOf (pid : ℕ) : Label Choice Event := .proc pid (.next false)

/-- The sample directory has nothing but files of the blob, all of one age. -/
theorem initial_atTen {live waiting : Option File}
    (h : ∀ file, live = some file ∨ waiting = some file → file.data = [1]) :
    Initial hexMurmur.hash (hexMurmur.hash [1]) (atTen live waiting) :=
  ⟨fun file hfile => by rw [h file hfile], rfl, rfl, fun _ => rfl⟩

/-- The stat and rename race of the collector: the file is renamed after it was
accessed, and the reader gets it back. -/
theorem accessed_blob_kept_race :
    ∃ s₁ s₂, exec (cacheStep hexMurmur.hash (hexMurmur.hash [1])) (atTen (some ⟨[1], 0⟩) none)
        [.env (.prune 5), .env .pruner, .env .pruner, .proc 0 (.start .getitem), nextOf 0] =
          some s₁ ∧
      exec (cacheStep hexMurmur.hash (hexMurmur.hash [1])) s₁
        [.env .pruner, nextOf 0, nextOf 0, nextOf 0] = some s₂ ∧
      ∃ data, s₂.procs 0 = .returned 10 data ∧ hexMurmur.hash data = hexMurmur.hash [1] := by
  have hguard : Guarded (cacheStep hexMurmur.hash (hexMurmur.hash [1])) NoStaleRename
      (atTen (some ⟨[1], 0⟩) none)
      ([.env (.prune 5), .env .pruner, .env .pruner, .proc 0 (.start .getitem), nextOf 0] ++
        [.env .pruner, nextOf 0, nextOf 0, nextOf 0]) := by
    refine guarded_cons (fun h => by cases h) rfl ?_
    refine guarded_cons (fun _ ⟨_, h⟩ => by cases h) rfl ?_
    refine guarded_cons (fun _ ⟨_, h⟩ => by cases h) rfl ?_
    refine guarded_cons (fun _ h => by cases h) rfl ?_
    refine guarded_cons (fun _ h => by cases h) rfl ?_
    refine guarded_cons (fun _ _ _ _ _ h => by cases h) rfl ?_
    refine guarded_cons (fun _ h => by cases h) rfl ?_
    refine guarded_cons (fun _ _ _ _ h => by cases h) rfl ?_
    exact guarded_cons (fun _ h => by cases h) rfl trivial
  refine ⟨_, _, rfl, rfl, ?_⟩
  rcases (accessed_blob_kept (initial_atTen (by simp)) hguard rfl rfl).2 0 10 rfl (by decide) with
    h | ⟨hcount, _⟩
  · exact h
  · exact absurd hcount (by decide)

/-- A rescue that started before the blob was added and accessed puts the old
file in the place of the new one; the collector then removes it. -/
theorem stale_rescue_loses_blob :
    Initial hexMurmur.hash (hexMurmur.hash [1]) (atTen none (some ⟨[1], 0⟩)) ∧
      ∃ s, exec (cacheStep hexMurmur.hash (hexMurmur.hash [1])) (atTen none (some ⟨[1], 0⟩))
          [.proc 0 (.start .contains), nextOf 0, .proc 1 (.start (.add [1])),
            .proc 1 (.next true), .proc 2 (.start .contains), nextOf 2, nextOf 0,
            .env (.prune 5), .env .pruner, .env .pruner, .env .pruner, .env .pruner,
            .env .pruner, .env .pruner] = some s ∧
        10 ∈ s.shared.accessed ∧ s.shared.Safe 10 ∧ s.shared.live = none ∧
        s.shared.waiting = none :=
  ⟨initial_atTen (by simp), _, rfl, by decide, by decide, rfl, rfl⟩

end OpenDiamond.BlobCache
