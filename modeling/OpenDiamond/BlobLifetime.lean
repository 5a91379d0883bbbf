import OpenDiamond.BlobCache

/-!
# How long an added blob stays

`add` keeps a file that is already there, with its modification time. What
protects the blob afterwards is the file that its name stands for after the
link. The history of accesses and prunes before the link is replaced by one
access at the age of that file; the argument about accessed blobs then serves
for every lookup that starts later.
-/

namespace OpenDiamond.BlobCache

open Lib.Runs Lib.Processes DiamondObject

/-! ## Another history -/

/-- The same directory and pruner with another record of accesses and
prunes. -/
def Shared.noting (s : Shared) (accessed expires : List ℕ) : Shared := { s with accessed, expires }

variable {sha256 : Bytes → String} {sig : String} {s : Shared}

section History

variable (accessed expires : List ℕ)

/-- What a process does next does not depend on the record. -/
theorem nextCall_noting (p : Proc) (choice : Choice) :
    nextCall sha256 sig (s.noting accessed expires) p choice = nextCall sha256 sig s p choice :=
  rfl

/-- A system call does the same to the directory whatever was recorded before. -/
theorem apply_noting (s : Shared) (c : SystemCall) :
    ∃ accessed', (s.noting accessed expires).apply c = (s.apply c).noting accessed' expires := by
  obtain ⟨clock, live, waiting, pruner, old, oldExpires⟩ := s
  cases c with
  | none => exact ⟨accessed, rfl⟩
  | utime =>
    cases live with
    | none => exact ⟨accessed, rfl⟩
    | some file => exact ⟨clock :: accessed, rfl⟩
  | rescue => cases waiting <;> exact ⟨accessed, rfl⟩
  | link file => cases live <;> exact ⟨accessed, rfl⟩

/-- The pruner does the same whatever was recorded. -/
theorem prunerStep_noting :
    prunerStep (s.noting accessed expires) = (prunerStep s).noting accessed expires := by
  obtain ⟨clock, live, waiting, pruner, old, oldExpires⟩ := s
  cases pruner with
  | statLive e => cases live <;> rfl
  | renameLive e => cases live <;> rfl
  | statWaiting e => cases waiting <;> rfl
  | _ => rfl

/-- So does every event outside the processes, up to what it records itself. -/
theorem env_noting {event : Event} {t : Shared} (h : env s event = some t) :
    ∃ expires', env (s.noting accessed expires) event = some (t.noting accessed expires') := by
  cases event with
  | tick seconds =>
    cases h
    exact ⟨expires, rfl⟩
  | prune e =>
    simp only [env] at h
    split at h
    · rename_i hidle
      cases h
      exact ⟨e :: expires, if_pos hidle⟩
    · cases h
  | pruner =>
    simp only [env] at h
    split at h
    · cases h
    · rename_i hbusy
      cases h
      refine ⟨expires, ?_⟩
      rw [← prunerStep_noting]
      exact if_neg hbusy

end History

/-- The same processes over the same directory, with any history. -/
def SameButHistory (s t : System Shared Proc) : Prop :=
  t.procs = s.procs ∧ ∃ accessed expires, t.shared = s.shared.noting accessed expires

/-- A step of one system is a step of another with the same directory and processes. This is the
simulation that lets a run go on with a shorter record. -/
theorem cacheStep_noting {s t s' : System Shared Proc} {label : Label Choice Event}
    (hR : SameButHistory s t) (h : cacheStep sha256 sig s label = some s') :
    ∃ t', cacheStep sha256 sig t label = some t' ∧ SameButHistory s' t' := by
  obtain ⟨shared, procs⟩ := t
  obtain ⟨rfl, accessed, expires, rfl⟩ := hR
  cases label with
  | proc pid choice =>
    obtain ⟨shared, p, hcall, rfl⟩ := step_proc_eq_some.mp h
    obtain ⟨⟨c, q⟩, hnext, heq⟩ := Option.map_eq_some_iff.mp hcall
    cases heq
    obtain ⟨accessed', happly⟩ := apply_noting accessed expires s.shared c
    refine ⟨⟨(s.shared.apply c).noting accessed' expires, Function.update s.procs pid q⟩, ?_, rfl,
      accessed', expires, rfl⟩
    refine step_proc_eq_some.mpr ⟨_, q, ?_, rfl⟩
    rw [call, nextCall_noting, hnext, Option.map_some, happly]
  | env event =>
    obtain ⟨shared, henv, rfl⟩ := step_env_eq_some.mp h
    obtain ⟨expires', hnoting⟩ := env_noting accessed expires henv
    exact ⟨⟨shared.noting accessed expires', s.procs⟩,
      step_env_eq_some.mpr ⟨_, hnoting, rfl⟩, rfl, accessed, expires', rfl⟩

/-- The condition on the steps does not depend on the record. -/
theorem noStaleRename_noting {s t : System Shared Proc} {label : Label Choice Event}
    (hR : SameButHistory s t) (hg : NoStaleRename s label) : NoStaleRename t label := by
  obtain ⟨shared, procs⟩ := t
  obtain ⟨rfl, accessed, expires, rfl⟩ := hR
  cases label with
  | proc pid choice => exact hg
  | env event => exact hg

/-- A system call records no prune. -/
theorem apply_expires (c : SystemCall) : (s.apply c).expires = s.expires := by
  cases c <;> simp only [Shared.apply] <;> split <;> rfl

/-- A step of the pruner itself records no further prune; only its start does. -/
theorem prunerStep_expires : (prunerStep s).expires = s.expires := by
  have hsame : (prunerStep (s.noting s.accessed s.expires)).expires =
      ((prunerStep s).noting s.accessed s.expires).expires := by rw [prunerStep_noting]
  exact hsame

/-- A run without a stale rename is such a run with any other history, as no step looks at the
history. This lets a run be looked at from its middle on. -/
theorem exec_noting {s t s' : System Shared Proc} {labels : List (Label Choice Event)}
    (hR : SameButHistory s t) (hg : Guarded (cacheStep sha256 sig) NoStaleRename s labels)
    (hr : exec (cacheStep sha256 sig) s labels = some s') :
    ∃ t', exec (cacheStep sha256 sig) t labels = some t' ∧
      Guarded (cacheStep sha256 sig) NoStaleRename t labels ∧ SameButHistory s' t' := by
  refine exec_simulates (fun _ _ _ _ hR h => ?_) (fun _ _ _ hR hguard => ?_) hR hg hr
  · exact cacheStep_noting hR h
  · exact noStaleRename_noting hR hguard

/-- An access that is on record stays there. -/
theorem accessed_of_step {s t : System Shared Proc} {label : Label Choice Event} {time : ℕ}
    (htime : time ∈ s.shared.accessed) (h : cacheStep sha256 sig s label = some t) :
    time ∈ t.shared.accessed := by
  cases label with
  | proc pid choice =>
    obtain ⟨shared, p, hcall, rfl⟩ := step_proc_eq_some.mp h
    obtain ⟨⟨c, q⟩, _, heq⟩ := Option.map_eq_some_iff.mp hcall
    cases heq
    show time ∈ (s.shared.apply c).accessed
    cases c with
    | none => exact htime
    | utime =>
      simp only [Shared.apply]
      split
      · exact List.mem_cons_of_mem _ htime
      · exact htime
    | rescue =>
      simp only [Shared.apply]
      split <;> exact htime
    | link file =>
      simp only [Shared.apply]
      split <;> exact htime
  | env event =>
    obtain ⟨shared, henv, rfl⟩ := step_env_eq_some.mp h
    obtain ⟨expires, hnoting⟩ := env_noting s.shared.accessed s.shared.expires henv
    have hsame : env s.shared event = some (shared.noting s.shared.accessed expires) := hnoting
    rw [Option.some.inj (henv.symm.trans hsame)]
    exact htime

/-- The prunes on record are those on record before the run, and those started in it. -/
theorem expires_of_exec {s t : System Shared Proc} {labels : List (Label Choice Event)}
    (hr : exec (cacheStep sha256 sig) s labels = some t) {e : ℕ} (he : e ∈ t.shared.expires) :
    e ∈ s.shared.expires ∨ .env (.prune e) ∈ labels := by
  induction labels generalizing s with
  | nil =>
    cases hr
    exact Or.inl he
  | cons label rest ih =>
    obtain ⟨u, hu, hrest⟩ := exec_cons_eq_some.mp hr
    rcases ih hrest with hold | hnew
    · cases label with
      | proc pid choice =>
        obtain ⟨shared, p, hcall, rfl⟩ := step_proc_eq_some.mp hu
        obtain ⟨⟨c, q⟩, _, heq⟩ := Option.map_eq_some_iff.mp hcall
        cases heq
        have hsame : (s.shared.apply c).expires = s.shared.expires := apply_expires c
        exact Or.inl (hsame ▸ hold)
      | env event =>
        obtain ⟨shared, henv, rfl⟩ := step_env_eq_some.mp hu
        cases event with
        | tick seconds =>
          cases henv
          exact Or.inl hold
        | prune e' =>
          simp only [env] at henv
          split at henv
          · cases henv
            rcases List.mem_cons.mp hold with rfl | hold
            · exact Or.inr List.mem_cons_self
            · exact Or.inl hold
          · cases henv
        | pruner =>
          simp only [env] at henv
          split at henv
          · cases henv
          · cases henv
            have hsame : (prunerStep s.shared).expires = s.shared.expires := prunerStep_expires
            exact Or.inl (hsame ▸ hold)
    · exact Or.inr (List.mem_cons_of_mem _ hnew)

/-! ## The lookup -/

/-- The process holds data of the blob if it is adding any. -/
def Sending (sha256 : Bytes → String) (sig : String) : Proc → Prop
  | .adding temp => sha256 temp.data = sig
  | _ => True

/-- A lookup, as if its access had completed at the time; an error is the
failure of the read. -/
def Proc.asRead (time : ℕ) : Proc → Proc
  | .running _ attempt => .running (.read time) attempt
  | .returned time data => .returned time data
  | .finished => .finished
  | _ => .ioError time

/-- A lookup that tries again does so as if its access had completed at the time. -/
theorem asRead_retry {time : ℕ} {task : Task} {failed : Proc}
    (hfailed : failed.asRead time = .ioError time) (attempt : Attempt) :
    (retry task failed attempt).asRead time = retry (.read time) (.ioError time) attempt := by
  cases attempt with
  | second => exact hfailed
  | _ => rfl

/-- Trying again keeps the data that a process has. -/
theorem sending_retry {task : Task} {failed : Proc} (hfailed : Sending sha256 sig failed)
    (attempt : Attempt) : Sending sha256 sig (retry task failed attempt) := by
  cases attempt with
  | second => exact hfailed
  | _ => trivial

/-- Behind an access a process has the data of the blob, if any. -/
theorem sending_afterAccess (time : ℕ) (lucky : Bool) (op : Op) :
    Sending sha256 sig (afterAccess time lucky op) := by
  cases op with
  | executablePath => cases lucky <;> trivial
  | _ => trivial

/-- What the next system call needs depends on the data that is sent, not on
how far the accesses are. -/
theorem nextCall_sending {pid : ℕ} {p p' : Proc} {choice : Choice} {c : SystemCall}
    (hp : Sending sha256 sig p) (hg : RescueGuard s pid p choice)
    (h : nextCall sha256 sig s p choice = some (c, p')) :
    CallOk sha256 sig s c ∧ Sending sha256 sig p' := by
  cases nextCall_cases h with
  | add hdata => exact ⟨trivial, hdata⟩
  | start _ => exact ⟨trivial, trivial⟩
  | adding temp lucky =>
    cases lucky with
    | false => exact ⟨trivial, trivial⟩
    | true => exact ⟨hp, trivial⟩
  | rescue task lucky => exact ⟨hg task rfl, trivial⟩
  | utime op lucky ha hl => exact ⟨trivial, sending_afterAccess s.clock lucky op⟩
  | read time lucky ha hl => exact ⟨trivial, trivial⟩
  | link time lucky ha hlink => exact ⟨trivial, trivial⟩
  | copy time lucky ha hl => exact ⟨trivial, trivial⟩
  | utimeFails op lucky ha hl =>
    have hfailed : Sending sha256 sig .keyError := trivial
    exact ⟨trivial, sending_retry hfailed _⟩
  | readFails time lucky ha hl =>
    have hfailed : Sending sha256 sig (.ioError time) := trivial
    exact ⟨trivial, sending_retry hfailed _⟩
  | linkFails time lucky ha hlink => exact ⟨trivial, trivial⟩
  | copyFails time lucky ha hl =>
    have hfailed : Sending sha256 sig (.ioError time) := trivial
    exact ⟨trivial, sending_retry hfailed _⟩

/-- A step of the lookup, from any access time on record. -/
theorem nextCall_asRead (hs : SharedInv sha256 sig s) {pid time : ℕ} (htime : time ∈ s.accessed)
    {p p' : Proc} {lucky : Bool} {c : SystemCall} (hc : CallOk sha256 sig s c)
    {task : Task} {attempt : Attempt} (hrunning : p = .running task attempt)
    (hp : TaskOk s time attempt)
    (h : nextCall sha256 sig s p (.next lucky) = some (c, p')) :
    ProcOk sha256 sig (s.apply c) pid (p'.asRead time) := by
  subst hrunning
  have hfailed : attempt ≠ .rescue → s.live = none →
      ProcOk sha256 sig s pid (retry (.read time) (.ioError time) attempt) :=
    fun ha hl => procOk_retry hs hl rfl ha hp pid
  cases nextCall_cases h with
  | rescue =>
    intro time' htime'
    cases htime'
    exact taskOk_rescue hs hc hp
  | utime op lucky ha hl =>
    have hmem : time ∈ (s.apply .utime).accessed := by
      simp only [Shared.apply, hl]
      exact List.mem_cons_of_mem _ htime
    have hread : ProcOk sha256 sig (s.apply .utime) pid (.running (.read time) .first) := by
      intro time' htime'
      cases htime'
      exact hmem
    cases op with
    | getitem => exact hread
    | executablePath =>
      cases lucky with
      | true => trivial
      | false => exact hread
    | _ => trivial
  | read time' lucky ha hl => exact hs.content _ (Or.inl hl)
  | link time' lucky ha hlink => trivial
  | copy time' lucky ha hl => trivial
  | utimeFails op lucky ha hl =>
    rw [asRead_retry rfl]
    exact hfailed ha hl
  | readFails time' lucky ha hl =>
    rw [asRead_retry rfl]
    exact hfailed ha hl
  | linkFails time' lucky ha hlink =>
    intro time' htime'
    cases htime'
    exact hp
  | copyFails time' lucky ha hl =>
    rw [asRead_retry rfl]
    exact hfailed ha hl

/-- The steps that `_try_with_rescue` has left, at most. -/
def Attempt.left : Attempt → ℕ
  | .first => 3
  | .rescue => 2
  | .second => 1

/-- A process inside `__getitem__` or after it, with the number of steps it has
left, at most. -/
inductive Getting : ℕ → Proc → Prop
  | utime (attempt : Attempt) : Getting (3 + attempt.left) (.running (.utime .getitem) attempt)
  | read (time : ℕ) (attempt : Attempt) : Getting attempt.left (.running (.read time) attempt)
  | returned (time : ℕ) (data : Bytes) : Getting 0 (.returned time data)
  | keyError : Getting 0 .keyError
  | ioError (time : ℕ) : Getting 0 (.ioError time)

/-- A rescue leaves one step less, and so does a failure. -/
theorem left_retry {attempt : Attempt} (ha : attempt ≠ .rescue) {task : Task} {failed : Proc}
    (extra : ℕ) (hfailed : Getting 0 failed)
    (htask : ∀ attempt : Attempt, Getting (extra + attempt.left) (.running task attempt)) :
    ∃ left, left < extra + attempt.left ∧ Getting left (retry task failed attempt) := by
  cases attempt with
  | first => exact ⟨extra + Attempt.left .rescue, by simp only [Attempt.left]; omega, htask .rescue⟩
  | rescue => exact absurd rfl ha
  | second => exact ⟨0, by simp only [Attempt.left]; omega, hfailed⟩

/-- A process that is inside a call does not start another one. -/
theorem Getting.not_start {left : ℕ} {p : Proc} (hp : Getting left p) (op : Op) :
    nextCall sha256 sig s p (.start op) = none := by
  cases hp <;> simp [nextCall]

/-- Every step brings a lookup nearer to its end. -/
theorem getting_nextCall {left : ℕ} {p p' : Proc} {choice : Choice} {c : SystemCall}
    (hp : Getting left p) (h : nextCall sha256 sig s p choice = some (c, p')) :
    ∃ left', left' < left ∧ Getting left' p' := by
  cases hp with
  | utime attempt =>
    cases nextCall_cases h with
    | rescue => exact ⟨_, by simp only [Attempt.left]; omega, Getting.utime .second⟩
    | utime op lucky ha hl =>
      refine ⟨_, ?_, Getting.read s.clock .first⟩
      cases attempt <;> simp only [Attempt.left] <;> omega
    | utimeFails op lucky ha hl => exact left_retry ha 3 .keyError Getting.utime
  | read time attempt =>
    cases nextCall_cases h with
    | rescue => exact ⟨_, by simp only [Attempt.left]; omega, Getting.read time .second⟩
    | read time lucky ha hl =>
      refine ⟨0, ?_, Getting.returned time _⟩
      cases attempt <;> simp only [Attempt.left] <;> omega
    | readFails time lucky ha hl =>
      have hread := left_retry ha 0 (.ioError time) fun attempt => by
        simpa only [Nat.zero_add] using Getting.read time attempt
      simpa only [Nat.zero_add] using hread
  | returned time data => cases nextCall_cases h
  | keyError => cases nextCall_cases h
  | ioError time => cases nextCall_cases h

/-! ## Runs after the link -/

/-- What holds of the directory once the access is on record. -/
def OnRecord (sha256 : Bytes → String) (sig : String) (time : ℕ) (s : Shared) : Prop :=
  SharedInv sha256 sig s ∧ time ∈ s.accessed

/-- What holds of every process while one of them looks the blob up. -/
def LookingUp (sha256 : Bytes → String) (sig : String) (time reader : ℕ) (s : Shared) (pid : ℕ)
    (p : Proc) : Prop :=
  Sending sha256 sig p ∧
    (pid = reader → ProcOk sha256 sig s pid (p.asRead time) ∧ ∃ left, Getting left p)

/-- A system call keeps what holds of the directory with the access on record, and what its process
has. -/
theorem call_onRecord {pid time : ℕ} {p p' : Proc} {choice : Choice} {t : Shared}
    (hs : OnRecord sha256 sig time s) (hp : Sending sha256 sig p)
    (hg : RescueGuard s pid p choice) (h : call sha256 sig s pid p choice = some (t, p')) :
    OnRecord sha256 sig time t ∧ Sending sha256 sig p' := by
  have hstep : cacheStep sha256 sig ⟨s, fun _ => p⟩ (.proc pid choice) =
      some ⟨t, Function.update (fun _ => p) pid p'⟩ :=
    step_proc_eq_some.mpr ⟨t, p', h, rfl⟩
  have hmem : time ∈ t.accessed := accessed_of_step hs.2 hstep
  obtain ⟨⟨c, q⟩, hnext, heq⟩ := Option.map_eq_some_iff.mp h
  cases heq
  obtain ⟨hc, hsending⟩ := nextCall_sending hp hg hnext
  exact ⟨⟨apply_inv hs.1 hc, hmem⟩, hsending⟩

/-- An event keeps both as well, and what holds of every process. -/
theorem env_onRecord {time : ℕ} {event : Event} {t : Shared} (hs : OnRecord sha256 sig time s)
    (hg : PruneGuard s event) (h : env s event = some t) :
    OnRecord sha256 sig time t ∧
      ∀ pid p, ProcOk sha256 sig s pid p → ProcOk sha256 sig t pid p := by
  have hstep : cacheStep sha256 sig ⟨s, fun _ => .idle⟩ (.env event) = some ⟨t, fun _ => .idle⟩ :=
    step_env_eq_some.mpr ⟨t, h, rfl⟩
  obtain ⟨hinv, hprocs⟩ := env_kept hs.1 hg h
  exact ⟨⟨hinv, accessed_of_step hs.2 hstep⟩, hprocs⟩

/-- A step of any process during the lookup. -/
theorem call_lookingUp {pid time reader : ℕ} {p p' : Proc} {choice : Choice} {t : Shared}
    (hs : OnRecord sha256 sig time s) (hp : LookingUp sha256 sig time reader s pid p)
    (hg : RescueGuard s pid p choice) (h : call sha256 sig s pid p choice = some (t, p')) :
    OnRecord sha256 sig time t ∧ LookingUp sha256 sig time reader t pid p' ∧
      ∀ other q, other ≠ pid → LookingUp sha256 sig time reader s other q →
        LookingUp sha256 sig time reader t other q := by
  obtain ⟨hrecord, hsending⟩ := call_onRecord hs hp.1 hg h
  obtain ⟨⟨c, next⟩, hnext, heq⟩ := Option.map_eq_some_iff.mp h
  cases heq
  have hc : CallOk sha256 sig s c := (nextCall_sending hp.1 hg hnext).1
  refine ⟨hrecord, ⟨hsending, fun hreader => ?_⟩, fun other q _ hq => ?_⟩
  · obtain ⟨hok, left, hleft⟩ := hp.2 hreader
    obtain ⟨left', _, hleft'⟩ := getting_nextCall hleft hnext
    refine ⟨?_, left', hleft'⟩
    cases choice with
    | start op => cases (hleft.not_start op).symm.trans hnext
    | next lucky =>
      cases hleft with
      | utime attempt => exact nextCall_asRead hs.1 hs.2 hc rfl (hok time rfl) hnext
      | read time' attempt => exact nextCall_asRead hs.1 hs.2 hc rfl (hok time rfl) hnext
      | returned time' data => cases hnext
      | keyError => cases hnext
      | ioError time' => cases hnext
  · exact ⟨hq.1, fun hreader => ⟨apply_procOk hs.1 hc (hq.2 hreader).1, (hq.2 hreader).2⟩⟩

/-- The start of a `__getitem__` changes nothing but where its process is. -/
theorem getitem_spec {s t : System Shared Proc} {reader : ℕ}
    (h : cacheStep sha256 sig s (.proc reader (.start .getitem)) = some t) :
    t.shared = s.shared ∧
      t.procs = Function.update s.procs reader (.running (.utime .getitem) .first) := by
  obtain ⟨shared, p, hcall, rfl⟩ := step_proc_eq_some.mp h
  obtain ⟨next, hnext, heq⟩ := Option.map_eq_some_iff.mp hcall
  cases heq
  cases hp : s.procs reader with
  | idle =>
    rw [hp] at hnext
    cases hnext
    exact ⟨rfl, rfl⟩
  | running task attempt => simp [nextCall, hp] at hnext
  | _ => simp [nextCall, hp] at hnext

/-- A lookup ends after at most six steps of its own. -/
theorem getting_run {s t : System Shared Proc} {reader : ℕ} {labels : List (Label Choice Event)}
    (hs : s.procs reader = .running (.utime .getitem) .first)
    (hr : exec (cacheStep sha256 sig) s labels = some t) :
    ∃ left, Getting left (t.procs reader) ∧ labels.countP (Label.isOf reader) + left ≤ 6 := by
  have hlocal : ∃ left, Getting left (t.procs reader) ∧
      0 + labels.countP (Label.isOf reader) + left ≤ 6 := by
    refine exec_local (R := fun n p => ∃ left, Getting left p ∧ n + left ≤ 6)
      (fun n _ _ _ _ _ hp h => ?_) ⟨6, ?_, le_rfl⟩ hr
    · obtain ⟨left, hleft, hle⟩ := hp
      obtain ⟨⟨c, q⟩, hnext, heq⟩ := Option.map_eq_some_iff.mp h
      cases heq
      obtain ⟨left', hlt, hleft'⟩ := getting_nextCall hleft hnext
      exact ⟨left', hleft', by omega⟩
    · rw [hs]
      exact Getting.utime .first
  rwa [Nat.zero_add] at hlocal

/-- Before the lookup every run keeps the access on record, and with it what holds of the
directory. -/
theorem exec_onRecord {s t : System Shared Proc} {time : ℕ} {labels : List (Label Choice Event)}
    (hs : OnRecord sha256 sig time s.shared) (hprocs : ∀ pid, Sending sha256 sig (s.procs pid))
    (hg : Guarded (cacheStep sha256 sig) NoStaleRename s labels)
    (hr : exec (cacheStep sha256 sig) s labels = some t) :
    OnRecord sha256 sig time t.shared ∧ ∀ pid, Sending sha256 sig (t.procs pid) := by
  have hholds : Holds (OnRecord sha256 sig time) (fun _ _ p => Sending sha256 sig p) t := by
    refine exec_holds (fun _ _ _ _ _ _ hinv hok hguard h => ?_)
      (fun _ _ _ hinv hguard h => ⟨(env_onRecord hinv hguard h).1, fun _ _ hq => hq⟩)
      ⟨hs, hprocs⟩ hg hr
    obtain ⟨hrecord, hown⟩ := call_onRecord hinv hok hguard h
    exact ⟨hrecord, hown, fun _ _ _ hq => hq⟩
  exact hholds

/-- During the lookup a run keeps the access on record, and the reader is in the middle of its
lookup. -/
theorem exec_lookingUp {s t : System Shared Proc} {time reader : ℕ}
    {labels : List (Label Choice Event)}
    (hs : Holds (OnRecord sha256 sig time) (LookingUp sha256 sig time reader) s)
    (hg : Guarded (cacheStep sha256 sig) NoStaleRename s labels)
    (hr : exec (cacheStep sha256 sig) s labels = some t) :
    Holds (OnRecord sha256 sig time) (LookingUp sha256 sig time reader) t := by
  refine exec_holds (fun _ _ _ _ _ _ hinv hok hguard h => call_lookingUp hinv hok hguard h)
    (fun _ _ _ hinv hguard h => ?_) hs hg hr
  obtain ⟨hrecord, hprocs⟩ := env_onRecord hinv hguard h
  refine ⟨hrecord, fun pid q hq => ⟨hq.1, fun hreader => ?_⟩⟩
  exact ⟨hprocs pid _ (hq.2 hreader).1, (hq.2 hreader).2⟩

/-- A `__getitem__` that starts with the access on record, in a run without a
stale rename and without a prune that may take the blob, returns data of the
blob after at most six more steps. -/
theorem lookup_found {s t : System Shared Proc} {time reader : ℕ}
    {second third : List (Label Choice Event)} (hs : OnRecord sha256 sig time s.shared)
    (hprocs : ∀ pid, Sending sha256 sig (s.procs pid))
    (hg : Guarded (cacheStep sha256 sig) NoStaleRename s
      (second ++ .proc reader (.start .getitem) :: third))
    (hr : exec (cacheStep sha256 sig) s (second ++ .proc reader (.start .getitem) :: third) =
      some t)
    (hsafe : t.shared.Safe time) :
    (∃ time data, t.procs reader = .returned time data ∧ sha256 data = sig) ∨
      (third.countP (Label.isOf reader) < 6 ∧
        ∃ task attempt, t.procs reader = .running task attempt) := by
  obtain ⟨u, hsecond, hrest⟩ := exec_append_eq_some.mp hr
  obtain ⟨v, hstart, hthird⟩ := exec_cons_eq_some.mp hrest
  obtain ⟨hg₂, hg₃⟩ := hg.append hsecond
  obtain ⟨hrecord, hsending⟩ := exec_onRecord hs hprocs hg₂ hsecond
  obtain ⟨hshared, hprocs'⟩ := getitem_spec hstart
  have hv : Holds (OnRecord sha256 sig time) (LookingUp sha256 sig time reader) v := by
    rw [← hshared] at hrecord
    refine ⟨hrecord, fun pid => ?_⟩
    rw [hprocs']
    by_cases hpid : pid = reader
    · rw [hpid, Function.update_self]
      refine ⟨trivial, fun _ => ⟨fun time' htime' => ?_, _, Getting.utime .first⟩⟩
      cases htime'
      exact hrecord.2
    · rw [Function.update_of_ne hpid]
      exact ⟨hsending pid, fun h => absurd h hpid⟩
  have ht := exec_lookingUp hv (hg₃.2 v hstart) hthird
  have hok : ProcOk sha256 sig t.shared reader ((t.procs reader).asRead time) :=
    ((ht.2 reader).2 rfl).1
  obtain ⟨left, hleft, hle⟩ := getting_run (by rw [hprocs', Function.update_self]) hthird
  generalize t.procs reader = p at hleft hok
  cases hleft with
  | utime attempt => exact Or.inr ⟨by omega, _, _, rfl⟩
  | read time' attempt =>
    have hpos : 0 < attempt.left := by cases attempt <;> decide
    exact Or.inr ⟨by omega, _, _, rfl⟩
  | returned time' data => exact Or.inl ⟨time', data, rfl, hok⟩
  | keyError => exact absurd hsafe hok
  | ioError time' => exact absurd hsafe hok

/-! ## Added blobs are kept -/

/-- The history that begins with one access as old as the live file. -/
theorem sharedInv_noting (hs : SharedInv sha256 sig s) {time : ℕ} (hfresh : Fresh time s.live)
    (htime : time ≤ s.clock) :
    SharedInv sha256 sig (s.noting [time] s.pruner.expires?.toList) := by
  refine ⟨hs.content, ?_, ?_, hs.pending, hs.expired, ?_⟩
  · intro time' htime'
    rw [List.mem_singleton.mp htime']
    exact htime
  · intro e he
    rw [Shared.noting, Option.mem_toList]
    exact he
  · intro time' htime' _
    rw [List.mem_singleton.mp htime']
    exact Or.inl hfresh

/-- What holds of every process says that the data it adds is that of the blob. -/
theorem sending_of_procOk {pid : ℕ} {p : Proc} (h : ProcOk sha256 sig s pid p) :
    Sending sha256 sig p := by
  cases p with
  | adding temp => exact h
  | _ => trivial

/-- The state after the attempt to link: the name has the file that it had before, or else the new
one. -/
theorem link_spec {s t : System Shared Proc} {pid : ℕ} {temp : File}
    (hadd : s.procs pid = .adding temp)
    (h : cacheStep sha256 sig s (.proc pid (.next true)) = some t) :
    t.shared = s.shared.apply (.link temp) ∧ t.procs = Function.update s.procs pid .finished := by
  obtain ⟨shared, p, hcall, rfl⟩ := step_proc_eq_some.mp h
  rw [call, hadd] at hcall
  cases hcall
  exact ⟨rfl, rfl⟩

/-- A link gives the name a file only where it has none. -/
theorem apply_link (s : Shared) (temp : File) :
    s.apply (.link temp) = { s with live := some (s.live.getD temp) } := by
  obtain ⟨clock, live, waiting, pruner, accessed, expires⟩ := s
  cases live <;> rfl

/-- No prune that is running at the link, or starts later, uses an `expires`
after the modification time of the file that the name then stands for, or after
the link. -/
def Outlasts (s : Shared) (temp : File) (later : List (Label Choice Event)) : Prop :=
  ∀ e, (s.pruner.expires? = some e ∨ .env (.prune e) ∈ later) →
    e ≤ (s.live.getD temp).mtime ∧ e ≤ s.clock

/-- In every run without a stale rename, when `add` has returned and the file
that its name stood for at the link outlasts the prunes, a `__getitem__` that
starts later returns the data after at most six more steps. -/
theorem added_blob_found {s s₁ s₂ s₃ s₄ : System Shared Proc} (hs : Initial sha256 sig s)
    {first second third : List (Label Choice Event)} {pid reader : ℕ} {temp : File}
    (hg : Guarded (cacheStep sha256 sig) NoStaleRename s
      (first ++ .proc pid (.next true) :: (second ++ .proc reader (.start .getitem) :: third)))
    (h₁ : exec (cacheStep sha256 sig) s first = some s₁)
    (hadd : s₁.procs pid = .adding temp)
    (h₂ : cacheStep sha256 sig s₁ (.proc pid (.next true)) = some s₂)
    (h₃ : exec (cacheStep sha256 sig) s₂ second = some s₃)
    (h₄ : exec (cacheStep sha256 sig) s₃ (.proc reader (.start .getitem) :: third) = some s₄)
    (hlasts : Outlasts s₁.shared temp (second ++ .proc reader (.start .getitem) :: third)) :
    (∃ time data, s₄.procs reader = .returned time data ∧ sha256 data = sig ∧
        ((∀ other, sha256 other = sig → other = temp.data) → data = temp.data)) ∨
      (third.countP (Label.isOf reader) < 6 ∧
        ∀ lucky, (cacheStep sha256 sig s₄ (.proc reader (.next lucky))).isSome) := by
  obtain ⟨hg₁, hlink, hlater⟩ := hg.append h₁
  obtain ⟨hinv, hok⟩ := run_holds hs hg₁ h₁
  have hsent : sha256 temp.data = sig := by
    have hproc := hok pid
    rw [hadd] at hproc
    exact hproc
  obtain ⟨hshared, hprocs⟩ := link_spec hadd h₂
  have hinv₂ : SharedInv sha256 sig s₂.shared := by
    rw [hshared]
    exact apply_inv hinv hsent
  rw [apply_link] at hshared
  have hsending : ∀ other, Sending sha256 sig (s₂.procs other) := by
    intro other
    rw [hprocs]
    by_cases hother : other = pid
    · rw [hother, Function.update_self]
      trivial
    · rw [Function.update_of_ne hother]
      exact sending_of_procOk (hok other)
  -- the access that stands for the earlier history
  let time := min (s₁.shared.live.getD temp).mtime s₁.shared.clock
  let view : System Shared Proc :=
    ⟨s₂.shared.noting [time] s₂.shared.pruner.expires?.toList, s₂.procs⟩
  have hrecord : OnRecord sha256 sig time view.shared := by
    refine ⟨sharedInv_noting hinv₂ ?_ ?_, List.mem_singleton_self time⟩
    · rw [hshared]
      exact ⟨_, rfl, min_le_left _ _⟩
    · rw [hshared]
      exact min_le_right _ _
  have hview : SameButHistory s₂ view := ⟨rfl, _, _, rfl⟩
  have hrest : exec (cacheStep sha256 sig) s₂ (second ++ .proc reader (.start .getitem) :: third) =
      some s₄ := exec_append_eq_some.mpr ⟨s₃, h₃, h₄⟩
  obtain ⟨t, ht, hguarded, hsame, _⟩ := exec_noting hview (hlater s₂ h₂) hrest
  have hsafe : t.shared.Safe time := by
    intro e he
    have huses : s₁.shared.pruner.expires? = some e ∨
        .env (.prune e) ∈ second ++ .proc reader (.start .getitem) :: third := by
      refine (expires_of_exec ht he).imp_left fun hold => ?_
      have hrunning : s₂.shared.pruner.expires? = some e := Option.mem_toList.mp hold
      rwa [hshared] at hrunning
    obtain ⟨hmtime, hclock⟩ := hlasts e huses
    exact le_min hmtime hclock
  rw [hsame.symm]
  rcases lookup_found hrecord hsending hguarded ht hsafe with
    ⟨time', data, hreturned, hdata⟩ | ⟨hcount, task, attempt, hrunning⟩
  · exact Or.inl ⟨time', data, hreturned, hdata, fun hunique => hunique data hdata⟩
  · exact Or.inr ⟨hcount, cacheStep_running (hsame ▸ hrunning)⟩

/-- The file that was there is newer than the prune that runs at the link. -/
theorem added_blob_found_kept :
    ∃ s₄ time data, exec (cacheStep hexMurmur.hash (hexMurmur.hash [1]))
        (atTen (some ⟨[1], 7⟩) none)
        ([.env (.prune 5), .proc 0 (.start (.add [1]))] ++ .proc 0 (.next true) ::
          ([.env .pruner, .env (.tick 3)] ++ .proc 1 (.start .getitem) ::
            [.env .pruner, nextOf 1, nextOf 1])) = some s₄ ∧
      s₄.procs 1 = .returned time data ∧ hexMurmur.hash data = hexMurmur.hash [1] := by
  have hguard : Guarded (cacheStep hexMurmur.hash (hexMurmur.hash [1])) NoStaleRename
      (atTen (some ⟨[1], 7⟩) none)
      ([.env (.prune 5), .proc 0 (.start (.add [1]))] ++ .proc 0 (.next true) ::
        ([.env .pruner, .env (.tick 3)] ++ .proc 1 (.start .getitem) ::
          [.env .pruner, nextOf 1, nextOf 1])) := by
    refine guarded_cons (fun h => by cases h) rfl ?_
    refine guarded_cons (fun _ h => by cases h) rfl ?_
    refine guarded_cons (fun _ h => by cases h) rfl ?_
    refine guarded_cons (fun _ ⟨_, h⟩ => by cases h) rfl ?_
    refine guarded_cons (fun h => by cases h) rfl ?_
    refine guarded_cons (fun _ h => by cases h) rfl ?_
    refine guarded_cons (fun _ ⟨_, h⟩ => by cases h) rfl ?_
    refine guarded_cons (fun _ h => by cases h) rfl ?_
    exact guarded_cons (fun _ h => by cases h) rfl trivial
  have hlasts : Outlasts ⟨10, some ⟨[1], 7⟩, none, .listLive 5, [], [5]⟩ ⟨[1], 10⟩
      ([.env .pruner, .env (.tick 3)] ++ .proc 1 (.start .getitem) ::
        [.env .pruner, nextOf 1, nextOf 1]) := by
    rintro e (he | he)
    · cases he
      decide
    · simp at he
  rcases added_blob_found (initial_atTen (by simp)) hguard rfl rfl rfl rfl rfl hlasts with
    ⟨time, data, hreturned, hdata, _⟩ | ⟨_, henabled⟩
  · exact ⟨_, time, data, rfl, hreturned, hdata⟩
  · exact absurd (henabled true) Bool.false_ne_true

/-- The data is added at time ten to an expired file, which a later prune of
five removes: the lookup finds nothing. -/
theorem added_blob_pruned :
    Initial hexMurmur.hash (hexMurmur.hash [1]) (atTen (some ⟨[1], 0⟩) none) ∧
      ∃ s₁ s₂ s₃, exec (cacheStep hexMurmur.hash (hexMurmur.hash [1])) (atTen (some ⟨[1], 0⟩) none)
          [.proc 0 (.start (.add [1])), .proc 0 (.next true)] = some s₁ ∧
        s₁.procs 0 = .finished ∧ s₁.shared.clock = 10 ∧
        exec (cacheStep hexMurmur.hash (hexMurmur.hash [1])) s₁
          [.env (.prune 5), .env .pruner, .env .pruner, .env .pruner, .env .pruner,
            .env .pruner, .env .pruner] = some s₂ ∧
        exec (cacheStep hexMurmur.hash (hexMurmur.hash [1])) s₂
          [.proc 1 (.start .getitem), nextOf 1, nextOf 1, nextOf 1] = some s₃ ∧
        s₃.procs 1 = .keyError :=
  ⟨initial_atTen (by simp), _, _, _, rfl, rfl, rfl, rfl, rfl, rfl⟩

end OpenDiamond.BlobCache
