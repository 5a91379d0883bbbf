import OpenDiamond.Lib.Words

/-!
# Lists in text files

A list of texts is written one to a line and read back by splitting the lines and stripping each.
What was read once is written and read back unchanged. A file that is iterated over is split at line
feeds and carriage returns only, and its lines keep their ends.
-/

namespace OpenDiamond.Lib.Lines

open Unicode Words

/-- The stripped lines of a file. -/
def readLines (content : Text) : List Text := (splitLines content).map strip

/-- A file with a text to a line. -/
def writeLines (lines : List Text) : Text := lines.flatMap fun line => line ++ [newline]

/-- A stripped text on one line. -/
structure IsLine (line : Text) : Prop where
  /-- No line breaks. -/
  unbroken : ∀ c ∈ line, isLineBreak c = false
  /-- Stripped. -/
  stripped : strip line = line

theorem strip_prefix_dropWhile (text : Text) : strip text <+: text.dropWhile isSpace :=
  List.rdropWhile_prefix isSpace _

theorem mem_of_mem_strip {text : Text} {c : CodePoint} (h : c ∈ strip text) : c ∈ text :=
  (List.dropWhile_sublist _).mem ((strip_prefix_dropWhile text).mem h)

/-- Stripping again changes nothing. -/
theorem strip_strip (text : Text) : strip (strip text) = strip text := by
  have hfront : (strip text).dropWhile isSpace = strip text := by
    cases hstrip : strip text with
    | nil => rfl
    | cons c rest =>
      obtain ⟨back, hback⟩ := strip_prefix_dropWhile text
      rw [hstrip, List.cons_append] at hback
      have hhead := List.head_dropWhile_not isSpace (l := text) (by rw [← hback]; exact List.cons_ne_nil _ _)
      simp only [← hback, List.head_cons] at hhead
      exact List.dropWhile_cons_of_neg (by simp [hhead])
  rw [strip, hfront]
  exact List.rdropWhile_idempotent _ _

/-- The lines of a text have no line breaks. -/
theorem unbroken_of_mem_splitLinesFrom {line text : Text} {afterReturn : Bool}
    (hline : ∀ c ∈ line, isLineBreak c = false) :
    ∀ l ∈ splitLinesFrom line afterReturn text, ∀ c ∈ l, isLineBreak c = false := by
  fun_induction splitLinesFrom line afterReturn text with
  | case1 => simp
  | case2 line afterReturn hne => simpa using hline
  | case3 line afterReturn c rest hskip ih => exact ih hline
  | case4 line afterReturn c rest hskip hbreak ih =>
    intro l hl
    rcases List.mem_cons.mp hl with rfl | hl
    · exact hline
    · exact ih (fun _ h => absurd h List.not_mem_nil) l hl
  | case5 line afterReturn c rest hskip hbreak ih =>
    refine ih fun d hd => ?_
    rcases List.mem_append.mp hd with hd | hd
    · exact hline d hd
    · rw [List.mem_singleton.mp hd]
      exact Bool.eq_false_iff.mpr hbreak

/-- What is read from a file are lines. -/
theorem isLine_of_mem_readLines {content line : Text} (h : line ∈ readLines content) :
    IsLine line := by
  obtain ⟨raw, hraw, rfl⟩ := List.mem_map.mp h
  have hbreaks : ∀ c ∈ raw, isLineBreak c = false :=
    unbroken_of_mem_splitLinesFrom (fun _ h => absurd h List.not_mem_nil) raw hraw
  exact ⟨fun c hc => hbreaks c (mem_of_mem_strip hc), strip_strip raw⟩

theorem splitLines_writeLines {lines : List Text}
    (h : ∀ line ∈ lines, ∀ c ∈ line, isLineBreak c = false) :
    splitLines (writeLines lines) = lines := by
  induction lines with
  | nil => rfl
  | cons line lines ih =>
    have htail := ih fun other hother => h other (List.mem_cons_of_mem _ hother)
    have hbreaks := h line List.mem_cons_self
    have hnewline : isLineBreak newline = true := rfl
    have hcr : decide (newline.val = 13) = false := rfl
    have hend : ∀ front : Text, splitLinesFrom front false ([newline] ++ writeLines lines) =
        front :: splitLinesFrom [] false (writeLines lines) := by
      intro front
      simp only [List.singleton_append, splitLinesFrom, Bool.false_eq_true, and_false, if_false,
        hnewline, if_true, hcr]
    rw [splitLines] at htail ⊢
    rw [writeLines, List.flatMap_cons, List.append_assoc]
    cases line with
    | nil =>
      rw [List.nil_append]
      exact (hend []).trans (congrArg _ htail)
    | cons c rest =>
      rw [splitLinesFrom_append hbreaks _ false (List.cons_ne_nil c rest), List.nil_append]
      exact (hend (c :: rest)).trans (congrArg _ htail)

/-- Lines are read back as they were written. -/
theorem readLines_writeLines {lines : List Text} (h : ∀ line ∈ lines, IsLine line) :
    readLines (writeLines lines) = lines := by
  rw [readLines, splitLines_writeLines fun line hline => (h line hline).unbroken]
  exact (List.map_congr_left fun line hline => (h line hline).stripped).trans (List.map_id lines)

/-! ## Iterating over a file -/

/-- The lines of a file that is read as text: a carriage return ends a line as well, and is dropped
before a line feed. -/
def fileLinesFrom (line : Text) : Text → List Text
  | [] => if line = [] then [] else [line]
  | c :: rest =>
    if c = 13 ∧ rest.head? = some 10 then fileLinesFrom line rest
    else if c = 10 ∨ c = 13 then (line ++ [10]) :: fileLinesFrom [] rest
    else fileLinesFrom (line ++ [c]) rest

/-- Iterating over a file. -/
def fileLines (content : Text) : List Text := fileLinesFrom [] content

/-- A line that is written is one of the lines. -/
theorem fileLinesFrom_append {part : Text} (h : ∀ c ∈ part, c ≠ 10 ∧ c ≠ 13) (line rest : Text) :
    fileLinesFrom line (part ++ 10 :: rest) = (line ++ part ++ [10]) :: fileLinesFrom [] rest := by
  induction part generalizing line with
  | nil =>
    have hreturn : ¬ ((10 : CodePoint) = 13 ∧ rest.head? = some 10) := fun hboth =>
      absurd hboth.1 (by decide)
    rw [List.nil_append, fileLinesFrom, if_neg hreturn, if_pos (Or.inl rfl), List.append_nil]
  | cons c part ih =>
    obtain ⟨hline, hreturn⟩ := h c List.mem_cons_self
    rw [List.cons_append, fileLinesFrom, if_neg fun hboth => hreturn hboth.1,
      if_neg (not_or.mpr ⟨hline, hreturn⟩), ih fun d hd => h d (List.mem_cons_of_mem c hd),
      List.append_assoc line, List.singleton_append]

end OpenDiamond.Lib.Lines
