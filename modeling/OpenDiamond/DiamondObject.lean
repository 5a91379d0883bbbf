import Mathlib.Data.Finset.Insert
import OpenDiamond.Lib.OrderedDict

/-!
# Diamond objects

The attribute map of an object, the signatures kept beside it and the set of
omitted attributes, with the operations of `EmptyObject` and `Object`. An
attribute value is its bytes: where the program keeps a text it encodes it
before it hashes it, stores it or sends it. A text with a lone surrogate has
no encoding; what the filter protocol makes of one is in `FilterProtocol`.
Loading an object's data is a parameter of the modules that need it.
-/

namespace OpenDiamond.DiamondObject

open Lib.OrderedDict

/-- A byte string. -/
abbrev Bytes := List UInt8

/-- The UTF-8 bytes of a text. -/
def encodeText (text : String) : Bytes := text.toUTF8.data.toList

/-- A lower-case hexadecimal digit. -/
def IsHexDigit (c : Char) : Prop := c ∈ "0123456789abcdef".toList

instance (c : Char) : Decidable (IsHexDigit c) := inferInstanceAs (Decidable (_ ∈ _))

/-- The hash behind `murmur`: its value is written in hexadecimal digits. -/
structure Murmur where
  /-- `murmur(data)`. -/
  hash : Bytes → String
  /-- The digest is a lower-case hexadecimal text. -/
  hex : ∀ data, ∀ c ∈ (hash data).toList, IsHexDigit c

/-- The digit of a value below sixteen. -/
def hexDigit (n : ℕ) : Char := "0123456789abcdef".toList.getD n '0'

/-- The two hexadecimal digits of a byte. -/
def hexByte (b : UInt8) : List Char := [hexDigit (b.toNat / 16), hexDigit (b.toNat % 16)]

/-- A number below 16 is printed as a hexadecimal digit. -/
theorem hexDigit_isHexDigit {n : ℕ} (h : n < 16) : IsHexDigit (hexDigit n) := by
  have hall : ∀ n < 16, IsHexDigit (hexDigit n) := by decide
  exact hall n h

/-- Different numbers are printed as different digits. -/
theorem hexDigit_inj {i j : ℕ} (hi : i < 16) (hj : j < 16) (h : hexDigit i = hexDigit j) :
    i = j := by
  have hall : ∀ i < 16, ∀ j < 16, hexDigit i = hexDigit j → i = j := by decide
  exact hall i hi j hj h

/-- The data itself, written in hexadecimal: a digest without collisions. -/
def hexMurmur : Murmur where
  hash data := String.ofList (data.flatMap hexByte)
  hex data c hc := by
    rw [String.toList_ofList, List.mem_flatMap] at hc
    obtain ⟨b, _, hb⟩ := hc
    have hlt := b.toNat_lt
    simp only [hexByte, List.mem_cons, List.not_mem_nil, or_false] at hb
    rcases hb with rfl | rfl <;> exact hexDigit_isHexDigit (by omega)

/-- The sample hash, which prints its data, has no collisions. -/
theorem hexMurmur_injective : Function.Injective hexMurmur.hash := by
  intro xs ys h
  have hl : xs.flatMap hexByte = ys.flatMap hexByte := String.ofList_injective h
  clear h
  induction xs generalizing ys with
  | nil =>
    cases ys with
    | nil => rfl
    | cons y ys => simp [hexByte] at hl
  | cons x xs ih =>
    cases ys with
    | nil => simp [hexByte] at hl
    | cons y ys =>
      simp only [List.flatMap_cons, hexByte, List.cons_append, List.nil_append,
        List.cons.injEq] at hl
      obtain ⟨hhigh, hlow, hrest⟩ := hl
      have hx := x.toNat_lt
      have hy := y.toNat_lt
      have h1 := hexDigit_inj (by omega) (by omega) hhigh
      have h2 := hexDigit_inj (by omega) (by omega) hlow
      have hxy : x = y := UInt8.toNat_inj.mp (by omega)
      rw [hxy, ih hrest]

/-- What `get_signature` returns: a digest, or the integer zero that stands
for every value of an object that does not compute signatures. -/
inductive Signature where
  | unsigned
  | digest (hex : String)
  deriving DecidableEq

/-- The signature `Object.__setitem__` records with a value. -/
def signatureOf (m : Murmur) (computeSignature : Bool) (value : Bytes) : Signature :=
  if computeSignature then .digest (m.hash value) else .unsigned

/-- An `Object`. The two dictionaries are only written together, so that the
signature of every attribute is the one of its current value. -/
structure Object (m : Murmur) where
  /-- `_id`, the text of the object. -/
  id : String
  /-- URI of the data, when the scope list gave one. -/
  src : Option String
  /-- URI of the metadata, when the scope list gave one. -/
  metaUri : Option String
  /-- `_compute_signature`. -/
  computeSignature : Bool
  /-- `_attrs`. -/
  attrs : Dict String Bytes
  /-- `_signatures`. -/
  signatures : Dict String Signature
  /-- `_omit_attrs`. -/
  omitAttrs : Finset String
  /-- Every signature is that of the value beside it. -/
  signed : ∀ key, signatures.get? key = (attrs.get? key).map (signatureOf m computeSignature)

namespace Object

variable {m : Murmur}

/-- `__contains__`. -/
def contains (obj : Object m) (key : String) : Bool := (obj.attrs.get? key).isSome

/-- `get_signature`; none where the program raises `KeyError`. -/
def getSignature (obj : Object m) (key : String) : Option Signature := obj.signatures.get? key

/-- `Object.__setitem__`. -/
def setItem (obj : Object m) (key : String) (value : Bytes) : Object m :=
  { obj with
    attrs := obj.attrs.set key value
    signatures := obj.signatures.set key (signatureOf m obj.computeSignature value)
    signed := by
      intro key'
      rw [Dict.get?_set, Dict.get?_set, obj.signed]
      split <;> rfl }

/-- `EmptyObject.omit`; none where the program raises `KeyError`. -/
def omitAttr (obj : Object m) (key : String) : Option (Object m) :=
  if obj.contains key then some { obj with omitAttrs := insert key obj.omitAttrs } else none

/-- An object without attributes, before `Object.__init__` fills it. -/
def blank (m : Murmur) (id : String) (src metaUri : Option String) (computeSignature : Bool) :
    Object m :=
  { id, src, metaUri, computeSignature, attrs := Dict.empty, signatures := Dict.empty,
    omitAttrs := ∅, signed := fun _ => rfl }

/-- `Object.__init__`: the two default attributes are texts closed by a NUL. -/
def new (m : Murmur) (serverId url : String) (src metaUri : Option String)
    (computeSignature : Bool) : Object m :=
  ((blank m url src metaUri computeSignature).setItem "Device-Name"
    (encodeText (serverId ++ "\x00"))).setItem "_ObjectID" (encodeText (url ++ "\x00"))

/-- Assign attributes one after the other. -/
def setItems (obj : Object m) (items : List (String × Bytes)) : Object m :=
  items.foldl (fun obj item => obj.setItem item.1 item.2) obj

/-- Two states of an object hold the same values under the same names. -/
def SameAttrs (a b : Object m) : Prop := ∀ key, a.attrs.get? key = b.attrs.get? key

/-- The signature of an attribute is that of its value, where signatures are computed at all. -/
theorem getSignature_eq (obj : Object m) (key : String) :
    obj.getSignature key = (obj.attrs.get? key).map (signatureOf m obj.computeSignature) :=
  obj.signed key

@[simp] theorem setItem_id (obj : Object m) (key : String) (value : Bytes) :
    (obj.setItem key value).id = obj.id := rfl

@[simp] theorem setItem_computeSignature (obj : Object m) (key : String) (value : Bytes) :
    (obj.setItem key value).computeSignature = obj.computeSignature := rfl

@[simp] theorem setItem_omitAttrs (obj : Object m) (key : String) (value : Bytes) :
    (obj.setItem key value).omitAttrs = obj.omitAttrs := rfl

@[simp] theorem setItem_attrs (obj : Object m) (key : String) (value : Bytes) :
    (obj.setItem key value).attrs = obj.attrs.set key value := rfl

theorem setItems_cons (obj : Object m) (item : String × Bytes) (rest : List (String × Bytes)) :
    obj.setItems (item :: rest) = (obj.setItem item.1 item.2).setItems rest := rfl

/-- Assignments change neither the identity nor the omit set, and act on the
attribute map as on the dictionary. -/
theorem setItems_spec (obj : Object m) (items : List (String × Bytes)) :
    (obj.setItems items).id = obj.id ∧
      (obj.setItems items).computeSignature = obj.computeSignature ∧
      (obj.setItems items).omitAttrs = obj.omitAttrs ∧
      (obj.setItems items).attrs = obj.attrs.setAll items := by
  induction items generalizing obj with
  | nil => exact ⟨rfl, rfl, rfl, rfl⟩
  | cons item rest ih =>
    rw [setItems_cons]
    exact ih (obj.setItem item.1 item.2)

/-- A successful omit only adds the name to the omit set. -/
theorem omitAttr_eq_some {obj obj' : Object m} {key : String} :
    obj.omitAttr key = some obj' ↔
      obj.contains key = true ∧ obj' = { obj with omitAttrs := insert key obj.omitAttrs } := by
  unfold omitAttr
  split
  · rename_i hk
    simp [hk, eq_comm]
  · rename_i hk
    simp [hk]

end Object

end OpenDiamond.DiamondObject
