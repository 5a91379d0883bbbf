import Mathlib.Algebra.BigOperators.Group.Finset.Piecewise
import Mathlib.Algebra.BigOperators.Group.Finset.Basic
import Mathlib.Data.Fintype.Basic
import Mathlib.Tactic.Abel
import OpenDiamond.Lib.OrderedDict
import OpenDiamond.Lib.Runs

/-!
# Session variables

A server keeps three accumulators for every session variable: what the client last set,
what filters have added since, and what they added after the client had read the second
but before it set the first. The client merges the partial values of all servers and sends
the new global values back. Values are taken from an additive group, so that a sum does
not depend on its order.
-/

namespace OpenDiamond.SessionVars

open Lib.OrderedDict Lib.Runs

variable {V : Type*} [AddCommGroup V]

/-! ## The variables of one server -/

/-- `_SessionVariable`. -/
structure SessionVariable (V : Type*) where
  /-- `_global_val`. -/
  globalVal : V
  /-- `_local_val`. -/
  localVal : V
  /-- `_between_get_and_set_val`. -/
  betweenGetAndSetVal : V
  deriving DecidableEq

/-- `_SessionVariable.__init__`. -/
def SessionVariable.new : SessionVariable V := ⟨0, 0, 0⟩

/-- `_SessionVariable.filter_get`. -/
def SessionVariable.filterGet (var : SessionVariable V) : V :=
  var.globalVal + var.localVal + var.betweenGetAndSetVal

/-- `_SessionVariable.filter_update`. -/
def SessionVariable.filterUpdate (var : SessionVariable V) (value : V)
    (betweenGetAndSet : Bool) : SessionVariable V :=
  if betweenGetAndSet then
    { var with betweenGetAndSetVal := var.betweenGetAndSetVal + value }
  else { var with localVal := var.localVal + value }

/-- `_SessionVariable.client_get`. -/
def SessionVariable.clientGet (var : SessionVariable V) : V := var.localVal

/-- `_SessionVariable.client_set`. -/
def SessionVariable.clientSet (var : SessionVariable V) (value : V) : SessionVariable V :=
  ⟨value, var.betweenGetAndSetVal, 0⟩

/-- Adding nothing changes nothing, whichever accumulator it goes to. -/
theorem SessionVariable.filterUpdate_zero (var : SessionVariable V) (betweenGetAndSet : Bool) :
    var.filterUpdate 0 betweenGetAndSet = var := by
  cases betweenGetAndSet <;> simp [filterUpdate]

/-- `SessionVariables`. Every method holds the lock from its first to its last access. -/
structure SessionVariables (V : Type*) where
  /-- `_vars`. -/
  vars : Dict String (SessionVariable V)
  /-- `_between_get_and_set`. -/
  betweenGetAndSet : Bool

namespace SessionVariables

/-- `SessionVariables.__init__`. -/
def new : SessionVariables V := ⟨Dict.empty, false⟩

/-- `SessionVariables.filter_get`. -/
def filterGet (state : SessionVariables V) (keys : List String) : Dict String V :=
  keys.foldl (fun ret key => ret.set key
    (match state.vars.get? key with
    | some var => var.filterGet
    | none => 0)) Dict.empty

/-- `SessionVariables.filter_update`. -/
def filterUpdate (state : SessionVariables V) (values : Dict String V) : SessionVariables V :=
  { vars := state.vars.combineAll .new
      (fun var value => var.filterUpdate value state.betweenGetAndSet) values.entries
    betweenGetAndSet := state.betweenGetAndSet }

/-- `SessionVariables.client_get`. -/
def clientGet (state : SessionVariables V) : Dict String V × SessionVariables V :=
  (state.vars.mapValues SessionVariable.clientGet, { state with betweenGetAndSet := true })

/-- `SessionVariables.client_set`. -/
def clientSet (state : SessionVariables V) (values : Dict String V) : SessionVariables V :=
  { vars := state.vars.combineAll .new (fun var value => var.clientSet value) values.entries
    betweenGetAndSet := false }

/-- A variable, with the accumulators of a new one where there is none. -/
def lookup (state : SessionVariables V) (key : String) : SessionVariable V :=
  (state.vars.get? key).getD .new

@[simp] theorem filterUpdate_betweenGetAndSet (state : SessionVariables V)
    (values : Dict String V) :
    (state.filterUpdate values).betweenGetAndSet = state.betweenGetAndSet := rfl

omit [AddCommGroup V] in
@[simp] theorem clientGet_betweenGetAndSet (state : SessionVariables V) :
    state.clientGet.2.betweenGetAndSet = true := rfl

@[simp] theorem clientSet_betweenGetAndSet (state : SessionVariables V) (values : Dict String V) :
    (state.clientSet values).betweenGetAndSet = false := rfl

/-- Reporting the variables changes none of them. -/
@[simp] theorem lookup_clientGet (state : SessionVariables V) (key : String) :
    state.clientGet.2.lookup key = state.lookup key := rfl

/-- At the start every variable is as new. -/
@[simp] theorem lookup_new (key : String) :
    (new : SessionVariables V).lookup key = .new := rfl

/-- An update adds its value for the variable, or nothing. -/
theorem lookup_filterUpdate (state : SessionVariables V) (values : Dict String V)
    (key : String) :
    (state.filterUpdate values).lookup key =
      (state.lookup key).filterUpdate ((values.get? key).getD 0) state.betweenGetAndSet := by
  have hget := Dict.get?_combineAll values.nodup .new
    (fun (var : SessionVariable V) value => var.filterUpdate value state.betweenGetAndSet)
    state.vars key
  rw [lookup, filterUpdate, hget]
  cases hfind : find values.entries key with
  | none =>
    have hnone : values.get? key = none := hfind
    rw [hnone, Option.getD_none, SessionVariable.filterUpdate_zero]
    rfl
  | some value =>
    have hsome : values.get? key = some value := hfind
    rw [hsome]
    rfl

/-- A set replaces the variables that it names. -/
theorem lookup_clientSet (state : SessionVariables V) (values : Dict String V) (key : String) :
    (state.clientSet values).lookup key =
      match values.get? key with
      | none => state.lookup key
      | some value => (state.lookup key).clientSet value := by
  have hget := Dict.get?_combineAll values.nodup .new
    (fun (var : SessionVariable V) value => var.clientSet value) state.vars key
  have hvalues : values.get? key = find values.entries key := rfl
  rw [lookup, clientSet, hget, hvalues]
  cases find values.entries key <;> rfl

omit [AddCommGroup V] in
/-- What the client reads of a variable. -/
theorem clientGet_get? (state : SessionVariables V) (key : String) :
    state.clientGet.1.get? key = (state.vars.get? key).map SessionVariable.localVal := by
  rw [clientGet, Dict.get?_mapValues]
  rfl

/-- The client reads nothing of a variable the server does not have. -/
theorem lookup_of_clientGet_eq_none {state : SessionVariables V} {key : String}
    (h : state.clientGet.1.get? key = none) : state.lookup key = .new := by
  rw [clientGet_get?, Option.map_eq_none_iff] at h
  rw [lookup, h]
  rfl

/-- The client is told what the server has collected for a variable. -/
theorem lookup_of_clientGet_eq_some {state : SessionVariables V} {key : String} {value : V}
    (h : state.clientGet.1.get? key = some value) : (state.lookup key).localVal = value := by
  rw [clientGet_get?] at h
  obtain ⟨var, hvar, hlocal⟩ := Option.map_eq_some_iff.mp h
  rw [lookup, hvar]
  exact hlocal

/-- What a filter is given for a variable it asks for. -/
theorem filterGet_get? (state : SessionVariables V) {keys : List String} {key : String}
    (h : key ∈ keys) : (state.filterGet keys).get? key = some (state.lookup key).filterGet := by
  have hvalue : ∀ name, (match state.vars.get? name with
      | some var => var.filterGet
      | none => (0 : V)) = (state.lookup name).filterGet := by
    intro name
    cases hvar : state.vars.get? name <;>
      simp [lookup, hvar, SessionVariable.filterGet, SessionVariable.new]
  have hfold : ∀ (names : List String) (ret : Dict String V),
      (key ∈ names ∨ ret.get? key = some (state.lookup key).filterGet) →
        (names.foldl (fun ret name => ret.set name (state.lookup name).filterGet) ret).get? key =
          some (state.lookup key).filterGet := by
    intro names
    induction names with
    | nil =>
      intro ret hret
      simpa using hret
    | cons name rest ih =>
      intro ret hret
      apply ih
      by_cases hname : name = key
      · subst hname
        exact Or.inr (Dict.get?_set_self ret name _)
      · rcases hret with hmem | hret
        · exact Or.inl ((List.mem_cons.mp hmem).resolve_left (Ne.symm hname))
        · exact Or.inr ((Dict.get?_set_of_ne ret _ hname).trans hret)
  simp only [filterGet, hvalue]
  exact hfold keys Dict.empty (Or.inl h)

/-- What the client has not been told of a variable yet. While the interlock is engaged
it has read the local value. -/
def unreported (state : SessionVariables V) (key : String) : V :=
  if state.betweenGetAndSet then (state.lookup key).betweenGetAndSetVal
  else (state.lookup key).localVal + (state.lookup key).betweenGetAndSetVal

/-- An update of a filter adds to what the client is still to be told. -/
theorem unreported_filterUpdate (state : SessionVariables V) (values : Dict String V)
    (key : String) : (state.filterUpdate values).unreported key =
      state.unreported key + (values.get? key).getD 0 := by
  rw [unreported, unreported, filterUpdate_betweenGetAndSet, lookup_filterUpdate]
  cases hbetween : state.betweenGetAndSet with
  | false =>
    simp only [SessionVariable.filterUpdate, Bool.false_eq_true, if_false]
    exact add_right_comm _ _ _
  | true => simp only [SessionVariable.filterUpdate, if_true]

/-- A get reports the local value. -/
theorem unreported_clientGet {state : SessionVariables V} (h : state.betweenGetAndSet = false)
    (key : String) : state.unreported key =
      (state.clientGet.1.get? key).getD 0 + state.clientGet.2.unreported key := by
  have hlocal : (state.clientGet.1.get? key).getD 0 = (state.lookup key).localVal := by
    cases hget : state.clientGet.1.get? key with
    | none =>
      rw [lookup_of_clientGet_eq_none hget]
      rfl
    | some value => exact (lookup_of_clientGet_eq_some hget).symm
  rw [hlocal, unreported, unreported, h, lookup_clientGet, clientGet_betweenGetAndSet]
  simp

/-- A set keeps what was not reported, if it names the variable or nothing of it was. -/
theorem unreported_clientSet {state : SessionVariables V} (h : state.betweenGetAndSet = true)
    {values : Dict String V} {key : String}
    (hnone : values.get? key = none → (state.lookup key).localVal = 0) :
    (state.clientSet values).unreported key = state.unreported key := by
  rw [unreported, unreported, h, clientSet_betweenGetAndSet, lookup_clientSet]
  cases hget : values.get? key with
  | none => simp [hnone hget]
  | some value => simp [SessionVariable.clientSet]

end SessionVariables

/-! ## Servers and their client -/

/-- Where the client is in its round. -/
inductive Round (ι V : Type*) where
  /-- Between two rounds. -/
  | idle
  /-- Some servers have not been asked yet; the others returned these variables. -/
  | getting (pending : Finset ι) (returned : Finset String)
  /-- Some servers have not been sent the new values yet. -/
  | setting (pending : Finset ι) (values : Dict String V)

/-- The servers of a search and the client. -/
structure Deployment (ι V : Type*) where
  /-- The session variables of every server. -/
  servers : ι → SessionVariables V
  /-- The running global values of the client. -/
  globals : Dict String V
  /-- The round of the client. -/
  round : Round ι V

/-- A step of a filter on some server or of the client. -/
inductive Action (ι V : Type*) where
  | filterUpdate (server : ι) (values : Dict String V)
  | startRound
  | clientGet (server : ι)
  | merge
  | clientSet (server : ι)
  | finishRound

variable {ι : Type*} [Fintype ι] [DecidableEq ι]

/-- New servers and a client that has seen nothing. -/
def Deployment.new : Deployment ι V := ⟨fun _ => .new, Dict.empty, .idle⟩

/-- The global value of a variable, zero if it was never set. -/
def Deployment.global (d : Deployment ι V) (key : String) : V := (d.globals.get? key).getD 0

/-- What a filter on a server gets for a variable. -/
def Deployment.filterGet (d : Deployment ι V) (server : ι) (key : String) : V :=
  (((d.servers server).filterGet [key]).get? key).getD 0

/-- One step. The client asks every server once, adds what is returned to its global
values, and sends those of all returned variables to every server. -/
def act (d : Deployment ι V) : Action ι V → Option (Deployment ι V)
  | .filterUpdate server values =>
    let state := (d.servers server).filterUpdate values
    some { d with servers := Function.update d.servers server state }
  | .startRound =>
    match d.round with
    | .idle => some { d with round := .getting Finset.univ ∅ }
    | _ => none
  | .clientGet server =>
    match d.round with
    | .getting pending returned =>
      if server ∈ pending then
        let (values, state) := (d.servers server).clientGet
        some
          { servers := Function.update d.servers server state
            globals := d.globals.combineAll 0 (· + ·) values.entries
            round := .getting (pending.erase server) (returned ∪ values.keys.toFinset) }
      else none
    | _ => none
  | .merge =>
    match d.round with
    | .getting pending returned =>
      if pending = ∅ then some
        { d with round := .setting Finset.univ (d.globals.restrict returned) }
      else none
    | _ => none
  | .clientSet server =>
    match d.round with
    | .setting pending values =>
      if server ∈ pending then some
        { d with
          servers := Function.update d.servers server ((d.servers server).clientSet values)
          round := .setting (pending.erase server) values }
      else none
    | _ => none
  | .finishRound =>
    match d.round with
    | .setting pending _ => if pending = ∅ then some { d with round := .idle } else none
    | _ => none

/-- What a step adds to a variable. -/
def Action.added (key : String) : Action ι V → V
  | .filterUpdate _ values => (values.get? key).getD 0
  | _ => 0

/-! ## Conservation -/

/-- The server agrees with the client on the global value, and nothing of the local value
was reported. -/
def Agrees (state : SessionVariables V) (key : String) (global : V) : Prop :=
  (state.lookup key).globalVal = global ∧
    (state.betweenGetAndSet = true → (state.lookup key).localVal = 0)

/-- The interlock is engaged between the get and the set of the round, and every server
that the round leaves alone agrees with the client. -/
def InRound (d : Deployment ι V) (key : String) : Prop :=
  match d.round with
  | .idle => ∀ i, (d.servers i).betweenGetAndSet = false ∧
      ((d.servers i).lookup key).globalVal = d.global key
  | .getting pending returned =>
    (∀ i, (d.servers i).betweenGetAndSet = decide (i ∉ pending)) ∧
      ((d.globals.restrict returned).get? key = none →
        ∀ i, Agrees (d.servers i) key (d.global key))
  | .setting pending values =>
    (∀ i, (d.servers i).betweenGetAndSet = decide (i ∈ pending)) ∧
      (values.get? key = none → ∀ i, Agrees (d.servers i) key (d.global key)) ∧
      ∀ value, values.get? key = some value → value = d.global key ∧
        ∀ i, i ∉ pending → ((d.servers i).lookup key).globalVal = d.global key

/-- The total of all updates is what the client knows and what it was not told yet. -/
structure Balanced (key : String) (d : Deployment ι V) (total : V) : Prop where
  /-- The round is as the interlocks say. -/
  inRound : InRound d key
  /-- Nothing was lost and nothing was counted twice. -/
  balance : total = d.global key + ∑ i, (d.servers i).unreported key

omit [AddCommGroup V] [Fintype ι] in
/-- An update of one server seen through a function of the servers. -/
theorem apply_update {α : Type*} (f : SessionVariables V → α) (servers : ι → SessionVariables V)
    (server : ι) (state : SessionVariables V) (i : ι) :
    f (Function.update servers server state i) = if i = server then f state else f (servers i) := by
  by_cases hi : i = server
  · subst hi
    simp
  · simp [hi]

/-- A server that changes by an amount changes the sum by that amount. -/
theorem sum_update (f : SessionVariables V → V) {servers : ι → SessionVariables V} {server : ι}
    {state : SessionVariables V} {amount : V} (h : f state = f (servers server) + amount) :
    ∑ i, f (Function.update servers server state i) = ∑ i, f (servers i) + amount := by
  have hrest : ∑ i ∈ Finset.univ.erase server, f (Function.update servers server state i) =
      ∑ i ∈ Finset.univ.erase server, f (servers i) := by
    apply Finset.sum_congr rfl
    intro i hi
    rw [apply_update f, if_neg (Finset.ne_of_mem_erase hi)]
  have hnew := Finset.add_sum_erase Finset.univ
    (fun i => f (Function.update servers server state i)) (Finset.mem_univ server)
  have hold := Finset.add_sum_erase Finset.univ (fun i => f (servers i)) (Finset.mem_univ server)
  simp only [Function.update_self] at hnew
  calc ∑ i, f (Function.update servers server state i)
      = f (servers server) + amount + ∑ i ∈ Finset.univ.erase server, f (servers i) := by
        rw [← hnew, hrest, h]
    _ = f (servers server) + ∑ i ∈ Finset.univ.erase server, f (servers i) + amount :=
        add_right_comm _ _ _
    _ = ∑ i, f (servers i) + amount := by rw [hold]

omit [Fintype ι] in
/-- A change of one server that neither moves its interlock nor its global value, nor its
local value while the interlock is engaged, leaves the round as it is. -/
theorem InRound.update {d : Deployment ι V} {key : String} (h : InRound d key) {server : ι}
    {state : SessionVariables V}
    (hbetween : state.betweenGetAndSet = (d.servers server).betweenGetAndSet)
    (hglobal : (state.lookup key).globalVal = ((d.servers server).lookup key).globalVal)
    (hlocal : state.betweenGetAndSet = true →
      (state.lookup key).localVal = ((d.servers server).lookup key).localVal) :
    InRound { d with servers := Function.update d.servers server state } key := by
  have hbetweens : ∀ i, (Function.update d.servers server state i).betweenGetAndSet =
      (d.servers i).betweenGetAndSet := by
    intro i
    rw [apply_update (fun s => s.betweenGetAndSet)]
    split
    · rename_i hi
      rw [hbetween, hi]
    · rfl
  have hglobals : ∀ i, ((Function.update d.servers server state i).lookup key).globalVal =
      ((d.servers i).lookup key).globalVal := by
    intro i
    rw [apply_update (fun s => (s.lookup key).globalVal)]
    split
    · rename_i hi
      rw [hglobal, hi]
    · rfl
  have hagrees : ∀ i global, Agrees (d.servers i) key global →
      Agrees (Function.update d.servers server state i) key global := by
    intro i global hi
    by_cases hserver : i = server
    · subst hserver
      rw [Function.update_self]
      refine ⟨hglobal.trans hi.1, ?_⟩
      intro hengaged
      rw [hlocal hengaged]
      exact hi.2 (hbetween ▸ hengaged)
    · rwa [Function.update_of_ne hserver]
  rcases d with ⟨servers, globals, round⟩
  cases round with
  | idle =>
    intro i
    rw [hbetweens, hglobals]
    exact h i
  | getting pending returned =>
    refine ⟨fun i => (hbetweens i).trans (h.1 i), ?_⟩
    intro hnone i
    exact hagrees i _ (h.2 hnone i)
  | setting pending values =>
    refine ⟨fun i => (hbetweens i).trans (h.1 i), ?_, ?_⟩
    · intro hnone i
      exact hagrees i _ (h.2.1 hnone i)
    · intro value hvalue
      obtain ⟨heq, hdone⟩ := h.2.2 value hvalue
      exact ⟨heq, fun i hi => (hglobals i).trans (hdone i hi)⟩

/-- An update is added to what its server did not report. -/
theorem balanced_filterUpdate {d : Deployment ι V} {key : String} {total : V}
    (h : Balanced key d total) (server : ι) (values : Dict String V) :
    Balanced key
      { d with
        servers := Function.update d.servers server ((d.servers server).filterUpdate values) }
      (total + (values.get? key).getD 0) := by
  constructor
  · apply h.inRound.update
    · rfl
    · rw [SessionVariables.lookup_filterUpdate, SessionVariable.filterUpdate]
      split <;> rfl
    · intro hengaged
      rw [SessionVariables.filterUpdate_betweenGetAndSet] at hengaged
      rw [SessionVariables.lookup_filterUpdate, SessionVariable.filterUpdate, if_pos hengaged]
  · have hsum := sum_update (fun s => s.unreported key)
      ((d.servers server).unreported_filterUpdate values key)
    rw [h.balance, add_assoc, ← hsum]
    rfl

/-- The global value after the partial values of a server have been added. -/
theorem global_combineAll (globals values : Dict String V) (key : String) :
    ((globals.combineAll 0 (· + ·) values.entries).get? key).getD 0 =
      (globals.get? key).getD 0 + (values.get? key).getD 0 := by
  rw [Dict.get?_combineAll values.nodup]
  have hvalues : values.get? key = find values.entries key := rfl
  rw [hvalues]
  cases find values.entries key <;> simp

/-- A variable that is not returned after a get was not returned by its server, nor before. -/
theorem eq_none_of_restrict_combineAll {globals values : Dict String V} {returned : Finset String}
    {key : String}
    (h : ((globals.combineAll 0 (· + ·) values.entries).restrict
      (returned ∪ values.keys.toFinset)).get? key = none) :
    values.get? key = none ∧ (globals.restrict returned).get? key = none := by
  rw [Dict.get?_restrict] at h
  have hmissing : find values.entries key = none := by
    by_contra hsome
    obtain ⟨value, hvalue⟩ := Option.ne_none_iff_exists'.mp hsome
    have hget : values.get? key = some value := hvalue
    have hkey : key ∈ values.keys := (Dict.mem_keys_iff _ key).mpr (by simp [hget])
    rw [if_pos (Finset.mem_union_right _ (List.mem_toFinset.mpr hkey)),
      Dict.get?_combineAll values.nodup, hvalue] at h
    cases h
  refine ⟨hmissing, ?_⟩
  rw [Dict.get?_combineAll values.nodup, hmissing] at h
  rw [Dict.get?_restrict]
  by_cases hmem : key ∈ returned
  · rw [if_pos (Finset.mem_union_left _ hmem)] at h
    rw [if_pos hmem]
    exact h
  · rw [if_neg hmem]

/-- A get moves the local value of its server to the client. -/
theorem balanced_clientGet {d : Deployment ι V} {key : String} {total : V}
    {pending : Finset ι} {returned : Finset String} {server : ι}
    (h : Balanced key d total) (hround : d.round = .getting pending returned)
    (hserver : server ∈ pending) :
    Balanced key
      { servers := Function.update d.servers server (d.servers server).clientGet.2
        globals := d.globals.combineAll 0 (· + ·) (d.servers server).clientGet.1.entries
        round := .getting (pending.erase server)
          (returned ∪ (d.servers server).clientGet.1.keys.toFinset) } total := by
  have hin := h.inRound
  rw [InRound, hround] at hin
  obtain ⟨hflags, hagrees⟩ := hin
  have hreleased : (d.servers server).betweenGetAndSet = false := by
    rw [hflags server]
    simpa using hserver
  constructor
  · refine ⟨?_, ?_⟩
    · intro i
      rw [apply_update (fun s => s.betweenGetAndSet)]
      by_cases hi : i = server
      · simp [hi]
      · simp [hi, hflags i]
    · intro hnone
      -- the server did not return the variable, so that nothing of it changes
      obtain ⟨hmissing, hbefore⟩ := eq_none_of_restrict_combineAll hnone
      have hglobal := global_combineAll d.globals (d.servers server).clientGet.1 key
      rw [hmissing, Option.getD_none, add_zero] at hglobal
      intro i
      rw [Deployment.global, hglobal]
      dsimp only
      by_cases hi : i = server
      · subst hi
        rw [Function.update_self]
        refine ⟨(hagrees hbefore i).1, ?_⟩
        intro _
        rw [SessionVariables.lookup_clientGet,
          SessionVariables.lookup_of_clientGet_eq_none hmissing]
        rfl
      · rw [Function.update_of_ne hi]
        exact hagrees hbefore i
  · have hreport := SessionVariables.unreported_clientGet hreleased key
    have hmoved : (d.servers server).clientGet.2.unreported key =
        (d.servers server).unreported key +
          -((d.servers server).clientGet.1.get? key).getD 0 := by
      rw [hreport]
      abel
    have hsum := sum_update (fun s => s.unreported key) hmoved
    have hglobal := global_combineAll d.globals (d.servers server).clientGet.1 key
    rw [Deployment.global, hglobal, hsum, h.balance, Deployment.global]
    abel

/-- A set brings its server to the global value and keeps what it did not report. -/
theorem balanced_clientSet {d : Deployment ι V} {key : String} {total : V}
    {pending : Finset ι} {values : Dict String V} {server : ι}
    (h : Balanced key d total) (hround : d.round = .setting pending values)
    (hserver : server ∈ pending) :
    Balanced key
      { d with
        servers := Function.update d.servers server ((d.servers server).clientSet values)
        round := .setting (pending.erase server) values } total := by
  have hin := h.inRound
  rw [InRound, hround] at hin
  obtain ⟨hflags, hnone, hsome⟩ := hin
  have hengaged : (d.servers server).betweenGetAndSet = true := by
    rw [hflags server]
    simpa using hserver
  constructor
  · refine ⟨?_, ?_, ?_⟩
    · intro i
      rw [apply_update (fun s => s.betweenGetAndSet)]
      by_cases hi : i = server
      · simp [hi]
      · simp [hi, hflags i]
    · intro hmissing i
      have hold := hnone hmissing i
      dsimp only
      by_cases hi : i = server
      · subst hi
        rw [Function.update_self]
        refine ⟨?_, ?_⟩
        · rw [SessionVariables.lookup_clientSet, hmissing]
          exact hold.1
        · intro hflag
          cases hflag
      · rw [Function.update_of_ne hi]
        exact hold
    · intro value hvalue
      obtain ⟨heq, hdone⟩ := hsome value hvalue
      refine ⟨heq, ?_⟩
      intro i hi
      dsimp only
      by_cases hserver' : i = server
      · subst hserver'
        rw [Function.update_self, SessionVariables.lookup_clientSet, hvalue]
        exact heq
      · rw [Function.update_of_ne hserver']
        apply hdone i
        intro hmem
        exact hi (Finset.mem_erase.mpr ⟨hserver', hmem⟩)
  · have hkept : ((d.servers server).clientSet values).unreported key =
        (d.servers server).unreported key + 0 := by
      rw [add_zero]
      apply SessionVariables.unreported_clientSet hengaged
      intro hmissing
      exact (hnone hmissing server).2 hengaged
    have hsum := sum_update (fun s => s.unreported key) hkept
    rw [add_zero] at hsum
    rw [h.balance, ← hsum]
    rfl

/-- At the start of a round no server has reported anything. -/
theorem balanced_startRound {d : Deployment ι V} {key : String} {total : V}
    (h : Balanced key d total) (hround : d.round = .idle) :
    Balanced key { d with round := .getting Finset.univ ∅ } total := by
  have hin := h.inRound
  rw [InRound, hround] at hin
  refine ⟨⟨?_, ?_⟩, h.balance⟩
  · intro i
    simp [(hin i).1]
  · intro _ i
    refine ⟨(hin i).2, ?_⟩
    intro hflag
    rw [(hin i).1] at hflag
    cases hflag

/-- The values to be set are the global values of what was returned. -/
theorem balanced_merge {d : Deployment ι V} {key : String} {total : V}
    {returned : Finset String} (h : Balanced key d total)
    (hround : d.round = .getting ∅ returned) :
    Balanced key { d with round := .setting Finset.univ (d.globals.restrict returned) } total := by
  have hin := h.inRound
  rw [InRound, hround] at hin
  obtain ⟨hflags, hagrees⟩ := hin
  refine ⟨⟨?_, hagrees, ?_⟩, h.balance⟩
  · intro i
    simp [hflags i]
  · intro value hvalue
    rw [Dict.get?_restrict] at hvalue
    split at hvalue
    · refine ⟨?_, fun i hi => absurd (Finset.mem_univ i) hi⟩
      simp [Deployment.global, hvalue]
    · cases hvalue

/-- At the end of a round every server has the global value. -/
theorem balanced_finishRound {d : Deployment ι V} {key : String} {total : V}
    {values : Dict String V} (h : Balanced key d total) (hround : d.round = .setting ∅ values) :
    Balanced key { d with round := .idle } total := by
  have hin := h.inRound
  rw [InRound, hround] at hin
  obtain ⟨hflags, hnone, hsome⟩ := hin
  refine ⟨?_, h.balance⟩
  intro i
  have hreleased : (d.servers i).betweenGetAndSet = false := by simp [hflags i]
  refine ⟨hreleased, ?_⟩
  cases hvalue : values.get? key with
  | none => exact (hnone hvalue i).1
  | some value => exact (hsome value hvalue).2 i (Finset.notMem_empty i)

/-- Every step of a filter or of the client keeps the balance. -/
theorem act_balanced {key : String} (d : Deployment ι V) (action : Action ι V)
    (next : Deployment ι V) (total : V) (h : Balanced key d total)
    (hstep : act d action = some next) : Balanced key next (total + action.added key) := by
  cases action with
  | filterUpdate server values =>
    cases hstep
    exact balanced_filterUpdate h server values
  | startRound =>
    simp only [Action.added, add_zero]
    simp only [act] at hstep
    split at hstep
    · rename_i hround
      cases hstep
      exact balanced_startRound h hround
    · cases hstep
  | clientGet server =>
    simp only [Action.added, add_zero]
    simp only [act] at hstep
    split at hstep
    · rename_i pending returned hround
      split at hstep
      · rename_i hserver
        cases hstep
        exact balanced_clientGet h hround hserver
      · cases hstep
    · cases hstep
  | merge =>
    simp only [Action.added, add_zero]
    simp only [act] at hstep
    split at hstep
    · rename_i pending returned hround
      split at hstep
      · rename_i hpending
        cases hstep
        subst hpending
        exact balanced_merge h hround
      · cases hstep
    · cases hstep
  | clientSet server =>
    simp only [Action.added, add_zero]
    simp only [act] at hstep
    split at hstep
    · rename_i pending values hround
      split at hstep
      · rename_i hserver
        cases hstep
        exact balanced_clientSet h hround hserver
      · cases hstep
    · cases hstep
  | finishRound =>
    simp only [Action.added, add_zero]
    simp only [act] at hstep
    split at hstep
    · rename_i pending values hround
      split at hstep
      · rename_i hpending
        cases hstep
        subst hpending
        exact balanced_finishRound h hround
      · cases hstep
    · cases hstep

/-- New servers and a new client are balanced. -/
theorem balanced_new (key : String) : Balanced key (Deployment.new : Deployment ι V) 0 := by
  constructor
  · intro i
    exact ⟨rfl, rfl⟩
  · have hzero : (SessionVariables.new : SessionVariables V).unreported key = 0 := by
      rw [SessionVariables.unreported, SessionVariables.lookup_new]
      simp [SessionVariable.new]
    simp [hzero, Deployment.global, Deployment.new]

/-- Between two rounds, in whatever order the filters of all servers and the client took
their steps, all updates ever made of a variable add up to its global value and the
differences of the servers from it. -/
theorem updates_conserved {actions : List (Action ι V)} {d : Deployment ι V}
    (hrun : exec act Deployment.new actions = some d) (hidle : d.round = .idle) (key : String) :
    (actions.map (Action.added key)).sum =
      d.global key + ∑ i, (d.filterGet i key - d.global key) := by
  have hbalanced := exec_weighted (I := Balanced key) act_balanced (balanced_new key) hrun
  have hin := hbalanced.inRound
  rw [InRound, hidle] at hin
  have hdiff : ∀ i, d.filterGet i key - d.global key = (d.servers i).unreported key := by
    intro i
    have hget := (d.servers i).filterGet_get? (List.mem_singleton.mpr (rfl : key = key))
    rw [Deployment.filterGet, hget, Option.getD_some, SessionVariable.filterGet,
      (hin i).2, SessionVariables.unreported, (hin i).1]
    simp only [Bool.false_eq_true, if_false]
    abel
  have hbalance := hbalanced.balance
  rw [zero_add] at hbalance
  rw [hbalance]
  simp only [hdiff]

/-- Two servers, with updates before, between and after the gets and sets of one round. -/
def sampleRound : List (Action (Fin 2) ℤ) :=
  [.filterUpdate 0 ⟨[("x", 5)], by decide⟩, .startRound, .clientGet 0,
    .filterUpdate 0 ⟨[("x", 2)], by decide⟩, .filterUpdate 1 ⟨[("x", 3)], by decide⟩,
    .clientGet 1, .filterUpdate 1 ⟨[("y", 7)], by decide⟩, .merge, .clientSet 0, .clientSet 1,
    .finishRound]

/-- A round with several servers ends with every update either in the client's value or still in the
server that collected it. -/
theorem updates_conserved_sampleRound :
    ∃ d, exec act Deployment.new sampleRound = some d ∧ d.round = .idle ∧
      (sampleRound.map (Action.added "y")).sum =
        d.global "y" + ∑ i, (d.filterGet i "y" - d.global "y") := by
  obtain ⟨d, hrun, hidle⟩ : ∃ d, exec act Deployment.new sampleRound = some d ∧
      d.round = .idle := ⟨_, rfl, rfl⟩
  exact ⟨d, hrun, hidle, updates_conserved hrun hidle "y"⟩

/-! ## Worker processes -/

section Workers

variable {ω : Type*} [DecidableEq ω]

/-- The memory of a started search. Every `FilterStackRunner` is a forked process, so that
the session variables it reaches through its `SearchState` are its own copy; only the
search process answers the client. -/
structure Memory (ω V : Type*) where
  /-- The session variables in the search process. -/
  search : SessionVariables V
  /-- The session variables in each worker. -/
  workers : ω → SessionVariables V
  /-- All updates handled so far, with the worker of each. -/
  handled : List (ω × Dict String V)

/-- The processes right after the fork. -/
def fork (image : SessionVariables V) : Memory ω V := ⟨image, fun _ => image, []⟩

/-- A command of a filter that a worker handles, or `session_variables_get`. -/
inductive Command (ω V : Type*) where
  | updateSessionVariables (worker : ω) (values : Dict String V)
  | getSessionVariables (worker : ω) (keys : List String)
  | sessionVariablesGet

/-- The process that handles a command works on its own memory. -/
def handleCommand (memory : Memory ω V) : Command ω V → Option (Memory ω V)
  | .updateSessionVariables worker values =>
    let state := (memory.workers worker).filterUpdate values
    some
      { memory with
        workers := Function.update memory.workers worker state
        handled := memory.handled ++ [(worker, values)] }
  | .getSessionVariables _ _ => some memory
  | .sessionVariablesGet => some { memory with search := memory.search.clientGet.2 }

/-- What updates add to a variable. -/
def updatesSum (updates : List (ω × Dict String V)) (key : String) : V :=
  (updates.map fun update => (update.2.get? key).getD 0).sum

/-- The updates handled by one worker. -/
def ownUpdates (updates : List (ω × Dict String V)) (worker : ω) : List (ω × Dict String V) :=
  updates.filter fun update => decide (update.1 = worker)

/-- The updates handled by the other workers. -/
def otherUpdates (updates : List (ω × Dict String V)) (worker : ω) : List (ω × Dict String V) :=
  updates.filter fun update => !decide (update.1 = worker)

/-- A read returns the sum of all updates handled so far by all workers. -/
def ReadsAll (memory : Memory ω V) : Command ω V → Prop
  | .updateSessionVariables _ _ => True
  | .getSessionVariables worker keys => ∀ key ∈ keys,
      ((memory.workers worker).filterGet keys).get? key = some (updatesSum memory.handled key)
  | .sessionVariablesGet => ∀ key,
      (memory.search.clientGet.1.get? key).getD 0 = updatesSum memory.handled key

/-- The updates that the reading process did not see add up to what it had when the workers
were forked. -/
def SeesAll (image : SessionVariables V) (memory : Memory ω V) : Command ω V → Prop
  | .updateSessionVariables _ _ => True
  | .getSessionVariables worker keys => ∀ key ∈ keys,
      updatesSum (otherUpdates memory.handled worker) key = (image.lookup key).filterGet
  | .sessionVariablesGet => ∀ key,
      updatesSum memory.handled key = (image.clientGet.1.get? key).getD 0

/-- Every process has the image of the fork and its own updates. -/
structure Forked (image : SessionVariables V) (memory : Memory ω V) : Prop where
  /-- No worker reaches the memory of the search process. -/
  search : memory.search.vars = image.vars
  /-- A worker sees its own updates only. -/
  workers : ∀ worker key, ((memory.workers worker).lookup key).filterGet =
    (image.lookup key).filterGet + updatesSum (ownUpdates memory.handled worker) key

/-- An update is added to the total of the variable. -/
theorem filterGet_filterUpdate (var : SessionVariable V) (value : V) (betweenGetAndSet : Bool) :
    (var.filterUpdate value betweenGetAndSet).filterGet = var.filterGet + value := by
  cases betweenGetAndSet with
  | false =>
    simp only [SessionVariable.filterUpdate, SessionVariable.filterGet, Bool.false_eq_true,
      if_false]
    abel
  | true =>
    simp only [SessionVariable.filterUpdate, SessionVariable.filterGet, if_true]
    abel

/-- A command to one process leaves the image that it was forked with alone. -/
theorem handleCommand_forked {image : SessionVariables V} (memory : Memory ω V)
    (command : Command ω V) (next : Memory ω V) (h : Forked image memory)
    (hstep : handleCommand memory command = some next) : Forked image next := by
  cases command with
  | updateSessionVariables worker values =>
    cases hstep
    refine ⟨h.search, ?_⟩
    intro other key
    have hown := h.workers other key
    dsimp only
    by_cases ho : other = worker
    · subst ho
      have hlist : ownUpdates (memory.handled ++ [(other, values)]) other =
          ownUpdates memory.handled other ++ [(other, values)] := by
        simp [ownUpdates]
      rw [hlist, Function.update_self, SessionVariables.lookup_filterUpdate,
        filterGet_filterUpdate, hown, add_assoc]
      simp [updatesSum]
    · have hlist : ownUpdates (memory.handled ++ [(worker, values)]) other =
          ownUpdates memory.handled other := by
        simp [ownUpdates, Ne.symm ho]
      rw [hlist, Function.update_of_ne ho, hown]
  | getSessionVariables worker keys =>
    cases hstep
    exact h
  | sessionVariablesGet =>
    cases hstep
    exact ⟨h.search, h.workers⟩

/-- The updates of one worker and those of the others are all updates. -/
theorem updatesSum_split (updates : List (ω × Dict String V)) (worker : ω) (key : String) :
    updatesSum updates key =
      updatesSum (ownUpdates updates worker) key + updatesSum (otherUpdates updates worker) key := by
  simp only [ownUpdates, otherUpdates, updatesSum]
  induction updates with
  | nil => simp
  | cons update rest ih =>
    by_cases hu : update.1 = worker
    · simp [hu, ih, add_assoc]
    · simp only [List.map_cons, List.sum_cons, ih, hu, decide_false, Bool.false_eq_true,
        not_false_eq_true, List.filter_cons_of_neg, Bool.not_false, List.filter_cons_of_pos]
      abel

/-- In every order of commands that the workers handle and of reads by the client, a read
returns the sum of all updates exactly when the updates of the other processes add up to
what the reading process had at the fork: processes share no session variables. -/
theorem readsAll_iff_seesAll (image : SessionVariables V) (commands : List (Command ω V)) :
    Guarded handleCommand ReadsAll (fork image) commands ↔
      Guarded handleCommand (SeesAll image) (fork image) commands := by
  have hfork : Forked image (fork image : Memory ω V) := by
    refine ⟨rfl, ?_⟩
    intro worker key
    simp [fork, ownUpdates, updatesSum]
  apply guarded_iff_of_invariant handleCommand_forked _ hfork
  intro memory command h
  cases command with
  | updateSessionVariables worker values => exact Iff.rfl
  | getSessionVariables worker keys =>
    have hkey : ∀ key ∈ keys, (((memory.workers worker).filterGet keys).get? key =
        some (updatesSum memory.handled key) ↔
          updatesSum (otherUpdates memory.handled worker) key = (image.lookup key).filterGet) := by
      intro key hkey
      rw [(memory.workers worker).filterGet_get? hkey, h.workers worker key,
        updatesSum_split memory.handled worker key, Option.some.injEq, add_comm, add_right_inj]
      exact eq_comm
    exact forall₂_congr hkey
  | sessionVariablesGet =>
    have hget : ∀ key, memory.search.clientGet.1.get? key = image.clientGet.1.get? key := by
      intro key
      rw [SessionVariables.clientGet_get?, SessionVariables.clientGet_get?, h.search]
    simp only [ReadsAll, SeesAll, hget]
    exact forall_congr' fun key => eq_comm

/-- One worker updates a variable, and another one that was forked with it does not read the
update. -/
theorem otherUpdate_not_read :
    ¬Guarded handleCommand ReadsAll (fork (SessionVariables.new : SessionVariables ℤ))
      [.updateSessionVariables (0 : Fin 2) ⟨[("x", 1)], by decide⟩,
        .getSessionVariables 1 ["x"]] := by
  intro h
  have hread := (h.2 _ rfl).1 "x" (List.mem_singleton.mpr rfl)
  exact absurd hread (by decide)

end Workers

end OpenDiamond.SessionVars
