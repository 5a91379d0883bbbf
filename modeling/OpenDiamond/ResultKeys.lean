import OpenDiamond.DiamondObject
import OpenDiamond.Lib.Binary64
import OpenDiamond.Lib.Joined

/-!
# Filter configurations and result cache keys

A resolved filter is identified in the result cache by the murmur hash of its
code signature, name, arguments and blob signature joined by spaces, and one
of its results by the hash of that digest and the object's name. Signatures
and digests are hexadecimal texts; the name and the arguments are arbitrary,
so that the digest only determines them up to the places of their spaces.
-/

namespace OpenDiamond.ResultKeys

open Lib.Binary64 Lib.Joined DiamondObject

/-- A SHA-256 signature as `hexdigest` writes it. -/
structure Sha256Hex where
  /-- The digits. -/
  text : String
  /-- 256 bits are 64 digits. -/
  length : text.toList.length = 64
  /-- The digits are lower-case hexadecimal. -/
  hex : ∀ c ∈ text.toList, IsHexDigit c
  deriving DecidableEq

/-- What `Filter.resolve` puts into the cache digest. -/
structure FilterConfig where
  /-- Signature of the filter code. -/
  codeSignature : Sha256Hex
  /-- Name of the filter. -/
  name : String
  /-- Arguments, in order. -/
  arguments : List String
  /-- Signature of the blob argument. -/
  blobSignature : Sha256Hex
  deriving DecidableEq

/-- `summary` in `Filter.resolve`. -/
def FilterConfig.summary (c : FilterConfig) : List String :=
  [c.codeSignature.text, c.name] ++ c.arguments ++ [c.blobSignature.text]

/-- `cache_digest` of a resolved filter. -/
def FilterConfig.cacheDigest (m : Murmur) (c : FilterConfig) : String :=
  m.hash (encodeText (" ".intercalate c.summary))

/-- `_ObjectProcessor.get_cache_key` for a cache digest and the object's text. -/
def getCacheKey (m : Murmur) (digest obj : String) : String :=
  "result:" ++ m.hash (encodeText (digest ++ " " ++ obj))

/-- The name and the arguments, each cut at its spaces. -/
def FilterConfig.words (c : FilterConfig) : List (List Char) :=
  (c.name :: c.arguments).flatMap fun text => text.toList.splitOn ' '

theorem encodeText_injective : Function.Injective encodeText := by
  intro a b h
  have hbytes : a.toUTF8 = b.toUTF8 := by
    apply ByteArray.ext
    exact Array.toList_inj.mp h
  exact String.toByteArray_inj.mp hbytes

theorem space_notMem_of_hex {text : String} (h : ∀ c ∈ text.toList, IsHexDigit c) :
    ' ' ∉ text.toList := by
  intro hs
  exact absurd (h ' ' hs) (by decide)

/-- The pieces of the joined summary: a signature is one piece. -/
theorem FilterConfig.summary_pieces (c : FilterConfig) :
    (c.summary.map String.toList).flatMap (List.splitOn ' ') =
      c.codeSignature.text.toList :: (c.words ++ [c.blobSignature.text.toList]) := by
  have hcode := splitOn_of_notMem (space_notMem_of_hex c.codeSignature.hex)
  have hblob := splitOn_of_notMem (space_notMem_of_hex c.blobSignature.hex)
  simp [summary, words, List.flatMap_map, hcode, hblob]

/-- Two configurations have the same digest exactly when they have the same
signatures and the same words. -/
theorem FilterConfig.cacheDigest_eq_iff {m : Murmur} (hm : Function.Injective m.hash)
    (c₁ c₂ : FilterConfig) :
    c₁.cacheDigest m = c₂.cacheDigest m ↔
      c₁.codeSignature = c₂.codeSignature ∧ c₁.words = c₂.words ∧
        c₁.blobSignature = c₂.blobSignature := by
  have hne : ∀ c : FilterConfig, c.summary.map String.toList ≠ [] := by
    intro c
    simp [summary]
  have hsig : ∀ a b : Sha256Hex, a.text.toList = b.text.toList ↔ a = b := by
    intro a b
    rw [String.toList_inj, Sha256Hex.mk.injEq]
  unfold cacheDigest
  rw [hm.eq_iff, encodeText_injective.eq_iff, ← String.toList_inj, String.toList_intercalate,
    String.toList_intercalate]
  have hpieces := intercalate_eq_iff ' ' (hne c₁) (hne c₂)
  rw [summary_pieces, summary_pieces] at hpieces
  have hsep : " ".toList = [' '] := rfl
  rw [hsep, hpieces, List.cons.injEq, List.append_singleton_inj, hsig, hsig]

theorem getCacheKey_eq_iff {m : Murmur} (hm : Function.Injective m.hash) {digest₁ digest₂ : String}
    (h₁ : ' ' ∉ digest₁.toList) (h₂ : ' ' ∉ digest₂.toList) (obj₁ obj₂ : String) :
    getCacheKey m digest₁ obj₁ = getCacheKey m digest₂ obj₂ ↔
      digest₁ = digest₂ ∧ obj₁ = obj₂ := by
  unfold getCacheKey
  rw [String.append_right_inj, hm.eq_iff, encodeText_injective.eq_iff, ← String.toList_inj]
  simp only [String.toList_append, List.append_assoc]
  have hsep : " ".toList = [' '] := rfl
  rw [hsep, List.singleton_append, List.singleton_append, append_cons_inj h₁ h₂,
    String.toList_inj, String.toList_inj]

theorem FilterConfig.space_notMem_cacheDigest (m : Murmur) (c : FilterConfig) :
    ' ' ∉ (c.cacheDigest m).toList :=
  space_notMem_of_hex (m.hex _)

/-- The keys of two configurations tell them apart exactly when they are the same configuration, or
differ in a signature or in their words: the words are joined by single blanks, so that it is not
seen where an argument ends. -/
theorem getCacheKey_separates_iff {m : Murmur} (hm : Function.Injective m.hash)
    (c₁ c₂ : FilterConfig) :
    (∀ obj₁ obj₂, getCacheKey m (c₁.cacheDigest m) obj₁ = getCacheKey m (c₂.cacheDigest m) obj₂ →
        c₁.codeSignature = c₂.codeSignature ∧ c₁.name = c₂.name ∧
          c₁.arguments = c₂.arguments ∧ c₁.blobSignature = c₂.blobSignature ∧ obj₁ = obj₂) ↔
      c₁ = c₂ ∨ c₁.codeSignature ≠ c₂.codeSignature ∨ c₁.blobSignature ≠ c₂.blobSignature ∨
        c₁.words ≠ c₂.words := by
  have hkey := getCacheKey_eq_iff hm (c₁.space_notMem_cacheDigest m) (c₂.space_notMem_cacheDigest m)
  constructor
  · intro h
    by_contra hcon
    simp only [not_or, not_not] at hcon
    obtain ⟨hne, hcode, hblob, hwords⟩ := hcon
    have hdigest := (FilterConfig.cacheDigest_eq_iff hm c₁ c₂).mpr ⟨hcode, hwords, hblob⟩
    obtain ⟨_, hname, hargs, _⟩ := h "" "" ((hkey "" "").mpr ⟨hdigest, rfl⟩)
    apply hne
    cases c₁
    cases c₂
    simp_all
  · intro h obj₁ obj₂ heq
    obtain ⟨hdigest, hobj⟩ := (hkey obj₁ obj₂).mp heq
    obtain ⟨hcode, hwords, hblob⟩ := (FilterConfig.cacheDigest_eq_iff hm c₁ c₂).mp hdigest
    rcases h with rfl | h | h | h
    · exact ⟨rfl, rfl, rfl, rfl, hobj⟩
    · exact (h hcode).elim
    · exact (h hblob).elim
    · exact (h hwords).elim

/-- Names and arguments without blanks inside are told apart by their words. -/
theorem FilterConfig.words_injective_of_noSpaces {c₁ c₂ : FilterConfig}
    (h₁ : ∀ text ∈ c₁.name :: c₁.arguments, ' ' ∉ text.toList)
    (h₂ : ∀ text ∈ c₂.name :: c₂.arguments, ' ' ∉ text.toList) (h : c₁.words = c₂.words) :
    c₁.name = c₂.name ∧ c₁.arguments = c₂.arguments := by
  have hpieces : ∀ texts : List String, (∀ text ∈ texts, ' ' ∉ text.toList) →
      texts.flatMap (fun text => text.toList.splitOn ' ') = texts.map String.toList := by
    intro texts ht
    induction texts with
    | nil => rfl
    | cons text rest ih =>
      rw [List.flatMap_cons, splitOn_of_notMem (ht text List.mem_cons_self),
        ih fun t hmem => ht t (List.mem_cons_of_mem text hmem)]
      rfl
  unfold words at h
  rw [hpieces _ h₁, hpieces _ h₂] at h
  have htexts := List.map_injective_iff.mpr (fun _ _ heq => String.toList_inj.mp heq) h
  exact List.cons.inj htexts

/-- The signature whose digits are all zero. -/
def zeroSignature : Sha256Hex :=
  ⟨"0000000000000000000000000000000000000000000000000000000000000000", by simp,
    by simp [IsHexDigit]⟩

/-- A filter with the given arguments. -/
def argumentsConfig (arguments : List String) : FilterConfig :=
  ⟨zeroSignature, "f", arguments, zeroSignature⟩

/-- Two configurations whose arguments are different words have different keys. -/
theorem getCacheKey_separates_plain :
    (argumentsConfig ["a"]).words ≠ (argumentsConfig ["b"]).words ∧
      getCacheKey hexMurmur ((argumentsConfig ["a"]).cacheDigest hexMurmur) "obj" ≠
        getCacheKey hexMurmur ((argumentsConfig ["b"]).cacheDigest hexMurmur) "obj" := by
  have hwords : (argumentsConfig ["a"]).words ≠ (argumentsConfig ["b"]).words := by
    intro h
    have hsame := (FilterConfig.words_injective_of_noSpaces (by decide) (by decide) h).2
    exact absurd hsame (by decide)
  have hseparates := (getCacheKey_separates_iff hexMurmur_injective (argumentsConfig ["a"])
    (argumentsConfig ["b"])).mpr (Or.inr (Or.inr (Or.inr hwords)))
  refine ⟨hwords, ?_⟩
  intro hkey
  have hsame := (hseparates "obj" "obj" hkey).2.2.1
  exact absurd hsame (by decide)

/-- One argument with a blank inside and two arguments give one key. -/
theorem getCacheKey_merges_arguments :
    Function.Injective hexMurmur.hash ∧
      getCacheKey hexMurmur ((argumentsConfig ["a b"]).cacheDigest hexMurmur) "obj" =
        getCacheKey hexMurmur ((argumentsConfig ["a", "b"]).cacheDigest hexMurmur) "obj" ∧
      (argumentsConfig ["a b"]).arguments ≠ (argumentsConfig ["a", "b"]).arguments := by
  have hjoin : " ".intercalate (argumentsConfig ["a b"]).summary =
      " ".intercalate (argumentsConfig ["a", "b"]).summary := by decide
  refine ⟨hexMurmur_injective, ?_, by decide⟩
  unfold FilterConfig.cacheDigest
  rw [hjoin]

end OpenDiamond.ResultKeys
