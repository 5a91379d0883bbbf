import OpenDiamond.Lib.Loops
import OpenDiamond.Lib.OrderedDict

/-!
# The searches of the blaster's cache

A search is stored under the hash of its pickle. The hash is computed in blocks until a read gives
an end marker. The marker is a text, but a file opened in binary mode gives bytes even at its end,
so the loop goes on forever and no search is ever stored.
-/

namespace OpenDiamond.SearchCache

open Lib.Loops Lib.OrderedDict

/-! ## The program -/

/-- What files read and write. Bytes and a text are never equal. -/
inductive Value where
  /-- A `bytes` object. -/
  | bytes (data : List UInt8)
  /-- A `str` object. -/
  | str (text : String)
  deriving DecidableEq

/-- Exceptions of the cache. -/
inductive Raised where
  /-- A text where bytes are needed. -/
  | typeError
  /-- An object that cannot be pickled. -/
  | picklingError
  deriving DecidableEq

/-- A file opened in binary mode. -/
structure File where
  /-- All bytes. -/
  content : List UInt8
  /-- Where the next byte is read or written. -/
  position : ℕ

/-- A new file. -/
def File.new : File := ⟨[], 0⟩

/-- `seek`. -/
def File.seek (file : File) (position : ℕ) : File := { file with position := position }

/-- `read`; at the end of the file there are no bytes left. -/
def File.read (file : File) (size : ℕ) : Value × File :=
  let data := (file.content.drop file.position).take size
  (.bytes data, { file with position := file.position + data.length })

/-- `write`. -/
def File.write (file : File) : Value → Except Raised File
  | .str _ => .error .typeError
  | .bytes data =>
    .ok {
      content := file.content.take file.position ++
        List.replicate (file.position - file.content.length) 0 ++ data ++
          file.content.drop (file.position + data.length)
      position := file.position + data.length }

/-- A hash object: the data given to it so far. -/
structure Hash where
  /-- The data. -/
  data : List UInt8

/-- `update`. -/
def Hash.update (hash : Hash) : Value → Except Raised Hash
  | .str _ => .error .typeError
  | .bytes data => .ok ⟨hash.data ++ data⟩

/-- The variables of `_hash_file`. -/
structure Hashing where
  /-- `filh`. -/
  filh : File
  /-- `hash`. -/
  hash : Hash

/-- What the packages do. -/
structure Packages (O D : Type) where
  /-- The hexadecimal SHA-256 of some data. -/
  sha256 : List UInt8 → String
  /-- What `pickle.dump` writes, and whether it gets to the end. -/
  dump : O → List UInt8 × Bool
  /-- `isoformat`. -/
  isoformat : D → String
  /-- The name of a new temporary file, by the names there are. -/
  tempName : List String → String

section HashFile

variable (sha256 : List UInt8 → String)

/-- A round of the loop of `_hash_file`, for some block size and some end marker. -/
def hashRound (size : ℕ) (marker : Value) (h : Hashing) : Hashing ⊕ Except Raised String :=
  let (buf, filh) := h.filh.read size
  if buf = marker then .inr (.ok (sha256 h.hash.data))
  else
    match h.hash.update buf with
    | .error raised => .inr (.error raised)
    | .ok hash => .inl ⟨filh, hash⟩

/-- `_hash_file`, `none` when it still runs after so many rounds. -/
def hashFile (rounds : ℕ) (filh : File) : Option (Except Raised String) :=
  loop (hashRound sha256 131072 (.str "")) rounds ⟨filh.seek 0, ⟨[]⟩⟩

end HashFile

/-- The directory of the cache. -/
structure Dir where
  /-- The temporary files. -/
  temps : Dict String (List UInt8)
  /-- The directories of the searches, with their files. -/
  searches : Dict String (Dict String (List UInt8))

section PutSearch

variable {O D : Type} (packages : Packages O D)

/-- `put_search` once the temporary file of the search is closed. -/
def storeSearch (tempSearch : String) (searchKey : String) (expiration : D) (dir : Dir) :
    Except Raised String × Dir :=
  let tempExpires := packages.tempName dir.temps.keys
  match File.new.write (.str (packages.isoformat expiration ++ "\n")) with
  | .error raised => (.error raised, { dir with temps := dir.temps.set tempExpires [] })
  | .ok expFh =>
    let searches :=
      if (dir.searches.get? searchKey).isSome then dir.searches
      else dir.searches.set searchKey Dict.empty
    let files := (searches.get? searchKey).getD Dict.empty
    let temps := (dir.temps.erase tempExpires).erase tempSearch
    if (files.get? "search").isSome then (.ok searchKey, ⟨temps, searches⟩)
    else
      let search := (dir.temps.get? tempSearch).getD []
      let stored := (files.set "expires" expFh.content).set "search" search
      (.ok searchKey, ⟨temps, searches.set searchKey stored⟩)

/-- `put_search`, `none` when `_hash_file` still runs after so many rounds. -/
def putSearch (rounds : ℕ) (obj : O) (expiration : D) (dir : Dir) :
    Option (Except Raised String × Dir) :=
  let name := packages.tempName dir.temps.keys
  let (data, complete) := packages.dump obj
  let dir := { dir with temps := dir.temps.set name data }
  match File.new.write (.bytes data) with
  | .error raised => some (.error raised, dir)
  | .ok objFh =>
    if complete = false then some (.error .picklingError, dir)
    else
      (hashFile packages.sha256 rounds objFh).map fun
        | .error raised => (.error raised, dir)
        | .ok searchKey => storeSearch packages name searchKey expiration dir

end PutSearch

/-! ## One block -/

/-- The bytes that are not read yet. -/
def File.left (file : File) : List UInt8 := file.content.drop file.position

theorem File.read_eq (file : File) (size : ℕ) :
    (file.read size).1 = .bytes (file.left.take size) := rfl

theorem File.left_read (file : File) (size : ℕ) :
    (file.read size).2.left = file.left.drop size := by
  have hnext : (file.read size).2.left = file.left.drop (file.left.take size).length :=
    List.drop_drop.symm
  rw [hnext, List.length_take]
  rcases Nat.le_total size file.left.length with hle | hle
  · rw [Nat.min_eq_left hle]
  · rw [Nat.min_eq_right hle, List.drop_length, List.drop_of_length_le hle]

/-- A read that asks for some bytes gives none exactly at the end of the file. -/
theorem File.read_eq_empty_iff {file : File} {size : ℕ} (hsize : 0 < size) :
    (file.read size).1 = .bytes [] ↔ file.left = [] := by
  rw [File.read_eq, Value.bytes.injEq, List.take_eq_nil_iff, or_iff_right hsize.ne']

section Markers

variable {sha256 : List UInt8 → String} {size : ℕ} {marker : Value}

/-- The loop ends at a read that gives the end marker. -/
theorem hashRound_of_eq {h : Hashing} (hread : (h.filh.read size).1 = marker) :
    hashRound sha256 size marker h = .inr (.ok (sha256 h.hash.data)) := if_pos hread

/-- Bytes that are not the end marker are hashed, and the loop goes on behind them. -/
theorem hashRound_of_ne {h : Hashing} (hread : (h.filh.read size).1 ≠ marker) :
    hashRound sha256 size marker h =
      .inl ⟨(h.filh.read size).2, ⟨h.hash.data ++ h.filh.left.take size⟩⟩ := if_neg hread

/-! ## End markers -/

/-- Bytes are no text, at the end of the file or before it, so a loop that waits for a text never
returns. -/
theorem endless_of_str (text : String) (h : Hashing) :
    Endless (hashRound sha256 size (.str text)) h := by
  have hround : ∀ h : Hashing, True →
      ∃ next, hashRound sha256 size (.str text) h = .inl next ∧ True := by
    intro h _
    have hread : (h.filh.read size).1 ≠ .str text := fun heq => nomatch heq
    exact ⟨_, hashRound_of_ne hread, trivial⟩
  exact endless_of_invariant hround trivial

/-- At the end of the file every read gives no bytes, and a loop that waits for anything else goes
on forever. -/
theorem endless_of_ne {h : Hashing} (hleft : h.filh.left = []) (hsize : 0 < size)
    (hmarker : marker ≠ .bytes []) : Endless (hashRound sha256 size marker) h := by
  have hround : ∀ h : Hashing, h.filh.left = [] →
      ∃ next, hashRound sha256 size marker h = .inl next ∧ next.filh.left = [] := by
    intro h hleft
    have hread : (h.filh.read size).1 ≠ marker := by
      rw [(File.read_eq_empty_iff hsize).mpr hleft]
      exact hmarker.symm
    refine ⟨_, hashRound_of_ne hread, ?_⟩
    rw [File.left_read, hleft, List.drop_nil]
  exact endless_of_invariant hround hleft

/-- What was hashed and what is not read yet make up the content. -/
def Splits (content : List UInt8) (h : Hashing) : Prop := h.hash.data ++ h.filh.left = content

/-- A round moves a block. -/
theorem Splits.next {content : List UInt8} {h : Hashing} (hsplits : Splits content h) (size : ℕ) :
    Splits content ⟨(h.filh.read size).2, ⟨h.hash.data ++ h.filh.left.take size⟩⟩ := by
  unfold Splits at hsplits ⊢
  rw [File.left_read, List.append_assoc, List.take_append_drop]
  exact hsplits

/-- With no bytes as the marker the loop hashes the whole file and returns, whatever the size of its
blocks. -/
theorem returns_of_empty (hsize : 0 < size) (file : File) :
    Returns (hashRound sha256 size (.bytes [])) ⟨file.seek 0, ⟨[]⟩⟩
      (.ok (sha256 file.content)) := by
  have hround : ∀ h : Hashing, Splits file.content h →
      hashRound sha256 size (.bytes []) h = .inr (.ok (sha256 file.content)) ∨
        ∃ next, hashRound sha256 size (.bytes []) h = .inl next ∧ Splits file.content next ∧
          next.filh.left.length < h.filh.left.length := by
    intro h hsplits
    by_cases hleft : h.filh.left = []
    · have hread := (File.read_eq_empty_iff hsize).mpr hleft
      have hdata : h.hash.data = file.content := by
        rw [← hsplits, hleft, List.append_nil]
      exact .inl (hdata ▸ hashRound_of_eq hread)
    · have hread := (File.read_eq_empty_iff hsize).not.mpr hleft
      refine .inr ⟨_, hashRound_of_ne hread, hsplits.next size, ?_⟩
      have hpos := List.length_pos_of_ne_nil hleft
      rw [File.left_read, List.length_drop]
      omega
  have hstart : Splits file.content ⟨file.seek 0, ⟨[]⟩⟩ := rfl
  exact returns_of_variant (fun h => h.filh.left.length) hround hstart

/-- The loop hashes every file, whatever the blocks are, exactly when it ends at no bytes. -/
theorem returns_content_iff (hsize : 0 < size) :
    (∀ file : File, Returns (hashRound sha256 size marker) ⟨file.seek 0, ⟨[]⟩⟩
        (.ok (sha256 file.content))) ↔ marker = .bytes [] := by
  constructor
  · intro h
    by_contra hmarker
    exact (endless_of_ne rfl hsize hmarker).not_returns _ (h File.new)
  · rintro rfl file
    exact returns_of_empty hsize file

end Markers

/-! ## Stored searches -/

/-- `_hash_file` returns the SHA-256 of the whole content. -/
def HashesContent (sha256 : List UInt8 → String) (filh : File) : Prop :=
  ∃ rounds, hashFile sha256 rounds filh = some (.ok (sha256 filh.content))

/-- A call of `put_search`. -/
structure Put (O D : Type) where
  /-- `obj`. -/
  obj : O
  /-- `expiration`. -/
  expiration : D
  /-- The directory of the cache. -/
  dir : Dir

section Keys

variable {O D : Type} (packages : Packages O D)

/-- The call returns a key. -/
def ReturnsKey (put : Put O D) (searchKey : String) : Prop :=
  ∃ rounds dir,
    putSearch packages rounds put.obj put.expiration put.dir = some (.ok searchKey, dir)

/-- Two calls return keys, and equal ones exactly for equal pickles. -/
def KeysAgree (first second : Put O D) : Prop :=
  ∃ key key', ReturnsKey packages first key ∧ ReturnsKey packages second key' ∧
    (key = key' ↔ (packages.dump first.obj).1 = (packages.dump second.obj).1)

/-- With a text as the end marker no number of rounds is enough, since no read of a binary file
gives a text. -/
theorem hashFile_eq_none (sha256 : List UInt8 → String) (rounds : ℕ) (filh : File) :
    hashFile sha256 rounds filh = none := endless_of_str "" _ rounds

/-- So no content is hashed. -/
theorem not_hashesContent (sha256 : List UInt8 → String) (filh : File) :
    ¬HashesContent sha256 filh := by
  rintro ⟨rounds, hreturns⟩
  cases (hashFile_eq_none sha256 rounds filh).symm.trans hreturns

/-- A call goes on forever, or raises before it gets to the hash. The temporary file stays. -/
theorem putSearch_eq (rounds : ℕ) (obj : O) (expiration : D) (dir : Dir) :
    putSearch packages rounds obj expiration dir =
      if (packages.dump obj).2 = true then none
      else some (.error .picklingError, { dir with
        temps := dir.temps.set (packages.tempName dir.temps.keys) (packages.dump obj).1 }) := by
  unfold putSearch
  rcases hdump : packages.dump obj with ⟨data, complete⟩
  cases complete with
  | true =>
    simp only [File.write, hashFile_eq_none]
    rfl
  | false => rfl

/-- Behind the hash the expiration would be written as a text, and nothing would be stored. -/
theorem storeSearch_raises (tempSearch searchKey : String) (expiration : D) (dir : Dir) :
    (storeSearch packages tempSearch searchKey expiration dir).1 = .error .typeError ∧
      (storeSearch packages tempSearch searchKey expiration dir).2.searches = dir.searches :=
  ⟨rfl, rfl⟩

/-- And no search gets a key. -/
theorem not_returnsKey (put : Put O D) (searchKey : String) :
    ¬ReturnsKey packages put searchKey := by
  rintro ⟨rounds, dir, hreturns⟩
  rw [putSearch_eq] at hreturns
  split at hreturns
  · cases hreturns
  · cases hreturns

/-- Two calls that return no keys do not return equal ones either. -/
theorem not_keysAgree (first second : Put O D) : ¬KeysAgree packages first second := by
  rintro ⟨key, key', hfirst, -⟩
  exact not_returnsKey packages first key hfirst

/-- `_hash_file` returns for no file and in no number of rounds, as it waits for an empty text where
a binary file gives empty bytes. So `put_search` returns no keys, and no two calls agree on one. -/
theorem hashFile_never_returns :
    (∀ filh, (∀ rounds, hashFile packages.sha256 rounds filh = none) ∧
        ¬HashesContent packages.sha256 filh) ∧
      ∀ first second : Put O D, ¬KeysAgree packages first second := by
  refine ⟨fun filh => ⟨fun rounds => ?_, ?_⟩, fun first second => ?_⟩
  · exact hashFile_eq_none packages.sha256 rounds filh
  · exact not_hashesContent packages.sha256 filh
  · exact not_keysAgree packages first second

end Keys

/-- Packages for the search `None`, with its pickle and the SHA-256 of that. -/
def nonePackages : Packages Unit String where
  sha256 _ := "9c298d589a2158eb513cb52191144518a2acab2cb0c04f1df14fca0f712fa4a1"
  dump _ := ([0x80, 0x04, 0x4e, 0x2e], true)
  isoformat expiration := expiration
  tempName names := "tmp" ++ toString names.length

/-- `put_search` of `None` in a new cache. -/
def putNone : Put Unit String := ⟨(), "2013-01-01T00:00:00+00:00", ⟨Dict.empty, Dict.empty⟩⟩

/-- The four bytes of this pickle are not hashed, and putting the same search twice gives no key. -/
theorem none_not_hashed :
    ¬HashesContent nonePackages.sha256 ⟨[0x80, 0x04, 0x4e, 0x2e], 4⟩ ∧
      ¬KeysAgree nonePackages putNone putNone :=
  ⟨not_hashesContent nonePackages.sha256 _, not_keysAgree nonePackages putNone putNone⟩

end OpenDiamond.SearchCache
