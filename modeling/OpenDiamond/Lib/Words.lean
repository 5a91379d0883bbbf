import Mathlib.Data.List.DropRight
import OpenDiamond.Lib.Unicode

/-!
# Blanks, lines and numbers in a text

The string methods that depend on what counts as a blank, a line break or a decimal digit
in Unicode.
-/

namespace OpenDiamond.Lib.Words

open Unicode

/-- The line feed. -/
def newline : CodePoint := 10

/-- `str.isspace` on one symbol. -/
def isSpace (c : CodePoint) : Bool :=
  (9 ≤ c.val ∧ c.val ≤ 13) ∨ (28 ≤ c.val ∧ c.val ≤ 32) ∨ (0x2000 ≤ c.val ∧ c.val ≤ 0x200a) ∨
    c.val ∈ [0x85, 0xa0, 0x1680, 0x2028, 0x2029, 0x202f, 0x205f, 0x3000]

/-- A symbol at which `str.splitlines` ends a line. -/
def isLineBreak (c : CodePoint) : Bool :=
  (10 ≤ c.val ∧ c.val ≤ 13) ∨ (28 ≤ c.val ∧ c.val ≤ 30) ∨ c.val ∈ [0x85, 0x2028, 0x2029]

/-- `str.strip`. -/
def strip (text : Text) : Text := (text.dropWhile isSpace).rdropWhile isSpace

/-- `str.splitlines` inside a line; a line feed right after a carriage return belongs to
the same line break. -/
def splitLinesFrom (line : Text) (afterReturn : Bool) : Text → List Text
  | [] => if line = [] then [] else [line]
  | c :: rest =>
    if c = newline ∧ afterReturn then splitLinesFrom line false rest
    else if isLineBreak c then line :: splitLinesFrom [] (c.val = 13) rest
    else splitLinesFrom (line ++ [c]) false rest

/-- `str.splitlines`. -/
def splitLines (text : Text) : List Text := splitLinesFrom [] false text

/-- The zeros of the decimal digits, each followed by the other nine. -/
def decimalZeros : List ℕ :=
  [0x30, 0x660, 0x6f0, 0x7c0, 0x966, 0x9e6, 0xa66, 0xae6, 0xb66, 0xbe6, 0xc66, 0xce6, 0xd66,
    0xde6, 0xe50, 0xed0, 0xf20, 0x1040, 0x1090, 0x17e0, 0x1810, 0x1946, 0x19d0, 0x1a80, 0x1a90,
    0x1b50, 0x1bb0, 0x1c40, 0x1c50, 0xa620, 0xa8d0, 0xa900, 0xa9d0, 0xa9f0, 0xaa50, 0xabf0,
    0xff10, 0x104a0, 0x10d30, 0x11066, 0x110f0, 0x11136, 0x111d0, 0x112f0, 0x11450, 0x114d0,
    0x11650, 0x116c0, 0x11730, 0x118e0, 0x11c50, 0x11d50, 0x11da0, 0x16a60, 0x16b50, 0x1d7ce,
    0x1d7d8, 0x1d7e2, 0x1d7ec, 0x1d7f6, 0x1e950]

/-- The value of a decimal digit. -/
def decimalValue? (c : CodePoint) : Option ℕ :=
  (decimalZeros.find? fun first => first ≤ c.val ∧ c.val ≤ first + 9).map fun first => c.val - first

/-- Digits with single underscores between them; the flag says that a digit comes before. -/
def readDigits (value : ℕ) (afterDigit : Bool) : Text → Option ℕ
  | [] => if afterDigit then some value else none
  | c :: rest =>
    if c.val = 95 then if afterDigit then readDigits value false rest else none
    else
      match decimalValue? c with
      | some digit => readDigits (10 * value + digit) true rest
      | none => none

/-- `int` on a text, `none` for the `ValueError`. -/
def readInt (text : Text) : Option ℤ :=
  match strip text with
  | [] => none
  | c :: rest =>
    if c.val = 43 then (readDigits 0 false rest).map fun value => (value : ℤ)
    else if c.val = 45 then (readDigits 0 false rest).map fun value => -(value : ℤ)
    else (readDigits 0 false (c :: rest)).map fun value => (value : ℤ)

/-- `textwrap.fill` on a text that is one word without hyphens: a line break wherever the
line is full, the first argument counting the places left in the line. -/
def fillFrom (width : ℕ) : ℕ → Text → Text
  | _, [] => []
  | 0, c :: rest => newline :: c :: fillFrom width (width - 1) rest
  | space + 1, c :: rest => c :: fillFrom width space rest

/-- `textwrap.fill` on a text that is one word without hyphens. -/
def fill (text : Text) (width : ℕ) : Text := fillFrom width width text

theorem isSpace_of_isLineBreak {c : CodePoint} (h : isLineBreak c = true) : isSpace c = true := by
  simp only [isLineBreak, List.mem_cons, List.not_mem_nil, or_false, decide_eq_true_eq] at h
  simp only [isSpace, List.mem_cons, List.not_mem_nil, or_false, decide_eq_true_eq]
  omega

/-- A text without blanks is its own `strip`. -/
theorem strip_eq_self {text : Text} (h : ∀ c ∈ text, isSpace c = false) : strip text = text := by
  have hleft : text.dropWhile isSpace = text := by
    cases text with
    | nil => rfl
    | cons c rest =>
      have hc := h c List.mem_cons_self
      simp [hc]
  rw [strip, hleft, List.rdropWhile_eq_self_iff]
  intro hne
  have hlast := h _ (List.getLast_mem hne)
  simp [hlast]

/-- A blank in front is stripped off. -/
theorem strip_cons_of_isSpace {c : CodePoint} (hc : isSpace c = true) (text : Text) :
    strip (c :: text) = strip text := by
  simp [strip, hc]

theorem splitLinesFrom_append {line part : Text} (h : ∀ c ∈ part, isLineBreak c = false)
    (rest : Text) (afterReturn : Bool) (hpart : part ≠ []) :
    splitLinesFrom line afterReturn (part ++ rest) = splitLinesFrom (line ++ part) false rest := by
  induction part generalizing line afterReturn with
  | nil => exact absurd rfl hpart
  | cons c part ih =>
    have hc := h c List.mem_cons_self
    have hnewline : c ≠ newline := by
      rintro rfl
      cases hc
    simp only [List.cons_append, splitLinesFrom, hnewline, false_and, if_false, hc,
      Bool.false_eq_true]
    cases part with
    | nil => simp
    | cons d part =>
      have htail : ∀ other ∈ d :: part, isLineBreak other = false :=
        fun other hother => h other (List.mem_cons_of_mem _ hother)
      rw [ih htail false (List.cons_ne_nil d part), List.append_assoc]
      rfl

/-- Lines joined by line feeds are split into the same lines. -/
theorem splitLines_intercalate {lines : List Text} (hne : ∀ line ∈ lines, line ≠ [])
    (h : ∀ line ∈ lines, ∀ c ∈ line, isLineBreak c = false) :
    splitLines ([newline].intercalate lines) = lines := by
  induction lines with
  | nil => rfl
  | cons line lines ih =>
    have hline := hne line List.mem_cons_self
    have hbreaks := h line List.mem_cons_self
    have htail := ih (fun other hother => hne other (List.mem_cons_of_mem _ hother))
      (fun other hother => h other (List.mem_cons_of_mem _ hother))
    cases lines with
    | nil =>
      have hsplit : splitLinesFrom [] false (line ++ []) = splitLinesFrom ([] ++ line) false [] :=
        splitLinesFrom_append hbreaks [] false hline
      simp only [List.append_nil, List.nil_append, splitLinesFrom, if_neg hline] at hsplit
      simpa [splitLines] using hsplit
    | cons next lines =>
      rw [List.intercalate_cons_cons, List.append_assoc, List.singleton_append, splitLines,
        splitLinesFrom_append hbreaks _ false hline, List.nil_append]
      have hnewline : isLineBreak newline = true := rfl
      have hcr : decide (newline.val = 13) = false := rfl
      simp only [splitLinesFrom, hnewline, Bool.false_eq_true, and_false, if_false, if_true, hcr]
      exact congrArg _ htail

theorem mem_fillFrom {width space : ℕ} {text : Text} {c : CodePoint}
    (h : c ∈ fillFrom width space text) : c ∈ text ∨ c = newline := by
  fun_induction fillFrom width space text with
  | case1 => simp at h
  | case2 d rest ih => grind
  | case3 space d rest ih => grind

/-- Without its line breaks a wrapped text is the text. -/
theorem filter_fill {text : Text} {keep : CodePoint → Bool} (hnewline : keep newline = false)
    (h : ∀ c ∈ text, keep c = true) (width : ℕ) : (fill text width).filter keep = text := by
  unfold fill
  suffices hall : ∀ space, (fillFrom width space text).filter keep = text from hall width
  intro space
  fun_induction fillFrom width space text with
  | case1 => rfl
  | case2 c rest ih =>
    have hc := h c List.mem_cons_self
    have htail := ih fun other hother => h other (List.mem_cons_of_mem _ hother)
    simp [hnewline, hc, htail]
  | case3 space c rest ih =>
    have hc := h c List.mem_cons_self
    have htail := ih fun other hother => h other (List.mem_cons_of_mem _ hother)
    simp [hc, htail]

end OpenDiamond.Lib.Words
