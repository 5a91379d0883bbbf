import Mathlib.Data.List.DropRight
import OpenDiamond.Lib.Halving

/-!
# Tile pyramids

The deepest level of a pyramid is the grid of tiles that cover an image; each level above has one
tile for every two columns and rows. The coordinates are enumerated level by level, and the path
of a tile spells the bits of its column and row, interleaved. Divisions by powers of two are exact.
-/

namespace OpenDiamond.Pyramid

open Lib.Halving

/-! ## The program -/

/-- The loop of `log_2`. -/
def log2Loop (x n : ℕ) : ℕ := if x = 0 then n else log2Loop (x >>> 1) (n + 1)
termination_by x
decreasing_by
  rw [Nat.shiftRight_one]
  omega

/-- `log_2`, `none` when its assertion fails. -/
def log2 (x : ℕ) : Option ℕ := if 0 < x then some (log2Loop (x - 1) 0) else none

/-- `round_up` of a number that is not negative. -/
def roundUp (x : ℚ) : ℕ := ⌈x⌉₊

/-- A digit of `path_to_tile`. -/
def gcTile (column row n : ℕ) : Char :=
  let index := (if column &&& 1 <<< n ≠ 0 then 1 else 0) + if row &&& 1 <<< n ≠ 0 then 2 else 0
  ['0', '1', '2', '3'].getD index '0'

/-- The file name of a tile, without its extension. -/
def fileName (level column row : ℕ) : List Char :=
  'r' :: (List.range level).reverse.map (gcTile column row)

/-- The directories of a file name: three characters each, up to the last three. -/
def directories (fn : List Char) : List Char :=
  (List.range ((fn.length - 3 + 2) / 3)).flatMap fun i => '/' :: (fn.drop (3 * i)).take 3

/-- `path_to_tile`. -/
def pathToTile (level column row : ℕ) : List Char :=
  let fn := fileName level column row
  (directories fn ++ '/' :: (fn ++ ".jpg".toList)).dropWhile fun c => c = '/'

/-- `columns_at_level` and `rows_at_level`. -/
def tilesAtLevel (levelsDeep tiles lvl : ℕ) : ℕ :=
  roundUp ((tiles : ℚ) / ((1 <<< (levelsDeep - lvl - 1) : ℕ) : ℚ))

/-- `levels_deep`. -/
def levelsDeep (tilesWide tilesHigh : ℕ) : Option ℕ := (log2 (max tilesWide tilesHigh)).map (· + 1)

/-- The coordinates of a level. -/
def coordsAtLevel (levels tilesWide tilesHigh lvl : ℕ) : List (ℕ × ℕ × ℕ) :=
  (List.range (tilesAtLevel levels tilesWide lvl)).flatMap fun col =>
    (List.range (tilesAtLevel levels tilesHigh lvl)).map fun row => (lvl, col, row)

/-- `iter_coords`, `none` when an assertion fails. A depth of zero limits nothing. -/
def iterCoords (width height : ℕ) (maxDepth : Option ℕ) (tileSize : ℕ) :
    Option (List (ℕ × ℕ × ℕ)) :=
  let tilesWide := roundUp ((width : ℚ) / tileSize)
  let tilesHigh := roundUp ((height : ℚ) / tileSize)
  (levelsDeep tilesWide tilesHigh).map fun levels =>
    ((List.range levels).takeWhile fun lvl => maxDepth.all fun depth => depth = 0 ∨ lvl ≤ depth).flatMap
      (coordsAtLevel levels tilesWide tilesHigh)

/-! ## Levels -/

/-- The loop stops at a power of two that the number is below, and never goes back. -/
theorem log2Loop_spec (x n : ℕ) : n ≤ log2Loop x n ∧ x < 2 ^ (log2Loop x n - n) := by
  fun_induction log2Loop x n with
  | case1 n => simp
  | case2 x n hx ih =>
    obtain ⟨hle, hlt⟩ := ih
    refine ⟨by omega, ?_⟩
    have hsplit : log2Loop (x >>> 1) (n + 1) - n = log2Loop (x >>> 1) (n + 1) - (n + 1) + 1 := by
      omega
    rw [hsplit, pow_succ]
    rw [Nat.shiftRight_one] at hlt ⊢
    omega

/-- There are enough levels for the tiles: each level doubles what the one above has, and the lowest
one has room for all of them. -/
theorem le_two_pow_of_levelsDeep {tilesWide tilesHigh levels : ℕ}
    (h : levelsDeep tilesWide tilesHigh = some levels) :
    0 < levels ∧ tilesWide ≤ 2 ^ (levels - 1) ∧ tilesHigh ≤ 2 ^ (levels - 1) := by
  unfold levelsDeep log2 at h
  split at h
  · cases h
    have hspec := (log2Loop_spec (max tilesWide tilesHigh - 1) 0).2
    rw [Nat.sub_zero] at hspec
    rw [Nat.add_sub_cancel]
    exact ⟨Nat.succ_pos _, by omega, by omega⟩
  · cases h

/-- An image that has pixels has tiles, hence levels. -/
theorem exists_levelsDeep {tilesWide tilesHigh : ℕ} (h : 0 < tilesWide) :
    ∃ levels, levelsDeep tilesWide tilesHigh = some levels := by
  have hmax : 0 < max tilesWide tilesHigh := by omega
  exact ⟨_, by rw [levelsDeep, log2, if_pos hmax]; rfl⟩

/-- Each level has half as many tiles as the one below it, rounded up, counted from the bottom. -/
theorem tilesAtLevel_eq (levels tiles lvl : ℕ) :
    tilesAtLevel levels tiles lvl = groups tiles (levels - lvl - 1) := by
  rw [tilesAtLevel, roundUp, groups, Nat.one_shiftLeft, Nat.cast_pow, Nat.cast_ofNat]

/-- The coordinates of a level are those inside its grid, and all of them. -/
theorem mem_coordsAtLevel {levels tilesWide tilesHigh lvl level column row : ℕ} :
    (level, column, row) ∈ coordsAtLevel levels tilesWide tilesHigh lvl ↔
      lvl = level ∧ column < groups tilesWide (levels - level - 1) ∧
        row < groups tilesHigh (levels - level - 1) := by
  simp only [coordsAtLevel, tilesAtLevel_eq, List.mem_flatMap, List.mem_map, List.mem_range,
    Prod.mk.injEq]
  constructor
  · rintro ⟨col, hcol, row', hrow, rfl, rfl, rfl⟩
    exact ⟨rfl, hcol, hrow⟩
  · rintro ⟨rfl, hcol, hrow⟩
    exact ⟨column, hcol, row, hrow, rfl, rfl, rfl⟩

/-- A level has as many coordinates as its grid has tiles. -/
theorem length_coordsAtLevel (levels tilesWide tilesHigh lvl : ℕ) :
    (coordsAtLevel levels tilesWide tilesHigh lvl).length =
      tilesAtLevel levels tilesWide lvl * tilesAtLevel levels tilesHigh lvl := by
  simp [coordsAtLevel, List.length_flatMap]

/-- No tile of a level comes twice. -/
theorem nodup_coordsAtLevel (levels tilesWide tilesHigh lvl : ℕ) :
    (coordsAtLevel levels tilesWide tilesHigh lvl).Nodup := by
  refine List.nodup_flatMap.mpr ⟨fun col _ => ?_, ?_⟩
  · exact List.nodup_range.map fun row row' h => (Prod.mk.inj (Prod.mk.inj h).2).2
  · refine List.nodup_range.imp fun {col col'} hne => ?_
    rintro ⟨level, column, row⟩ hmem hmem'
    obtain ⟨_, _, heq⟩ := List.mem_map.mp hmem
    obtain ⟨_, _, heq'⟩ := List.mem_map.mp hmem'
    exact hne ((Prod.mk.inj (Prod.mk.inj heq).2).1.trans (Prod.mk.inj (Prod.mk.inj heq').2).1.symm)

/-! ## Enumeration -/

/-- The coordinates without a limit of the depth. -/
theorem iterCoords_eq {width height tileSize levels : ℕ}
    (h : levelsDeep (roundUp ((width : ℚ) / tileSize)) (roundUp ((height : ℚ) / tileSize)) =
      some levels) :
    iterCoords width height none tileSize = some ((List.range levels).flatMap
      (coordsAtLevel levels (roundUp ((width : ℚ) / tileSize)) (roundUp ((height : ℚ) / tileSize)))) := by
  have hall : (List.range levels).takeWhile
      (fun lvl => (none : Option ℕ).all fun depth => decide (depth = 0 ∨ lvl ≤ depth)) =
      List.range levels := List.takeWhile_eq_self_iff.mpr fun _ _ => rfl
  rw [iterCoords, h, Option.map_some, hall]

/-- All levels together have every coordinate of every grid. -/
theorem mem_levels {levels tilesWide tilesHigh level column row : ℕ} :
    (level, column, row) ∈ (List.range levels).flatMap (coordsAtLevel levels tilesWide tilesHigh) ↔
      level < levels ∧ column < groups tilesWide (levels - level - 1) ∧
        row < groups tilesHigh (levels - level - 1) := by
  rw [List.mem_flatMap]
  constructor
  · rintro ⟨lvl, hlvl, hmem⟩
    obtain ⟨rfl, hcol, hrow⟩ := mem_coordsAtLevel.mp hmem
    exact ⟨List.mem_range.mp hlvl, hcol, hrow⟩
  · rintro ⟨hlvl, hcol, hrow⟩
    exact ⟨level, List.mem_range.mpr hlvl, mem_coordsAtLevel.mpr ⟨rfl, hcol, hrow⟩⟩

/-- No tile comes twice in all levels together. -/
theorem nodup_levels (levels tilesWide tilesHigh : ℕ) :
    ((List.range levels).flatMap (coordsAtLevel levels tilesWide tilesHigh)).Nodup := by
  refine List.nodup_flatMap.mpr ⟨fun lvl _ => nodup_coordsAtLevel levels _ _ lvl, ?_⟩
  refine List.nodup_range.imp fun {lvl lvl'} hne => ?_
  rintro ⟨level, column, row⟩ hmem hmem'
  exact hne ((mem_coordsAtLevel.mp hmem).1.trans (mem_coordsAtLevel.mp hmem').1.symm)

/-! ## Paths -/

/-- Masking with a shifted one asks for one bit. -/
theorem and_one_shiftLeft_ne_zero (x n : ℕ) : x &&& 1 <<< n ≠ 0 ↔ x.testBit n = true := by
  rw [Nat.one_shiftLeft, Nat.and_two_pow]
  cases x.testBit n <;> simp

/-- A digit gives the two bits back. -/
theorem gcTile_inj {column row column' row' n : ℕ}
    (h : gcTile column row n = gcTile column' row' n) :
    column.testBit n = column'.testBit n ∧ row.testBit n = row'.testBit n := by
  simp only [gcTile, and_one_shiftLeft_ne_zero] at h
  revert h
  cases column.testBit n <;> cases row.testBit n <;> cases column'.testBit n <;>
    cases row'.testBit n <;> decide

/-- The letter of a tile is never the slash that separates the parts of its name. -/
theorem gcTile_ne_slash (column row n : ℕ) : gcTile column row n ≠ '/' := by
  unfold gcTile
  split <;> split <;> decide

/-- The file name gives the coordinates back. -/
theorem fileName_inj {level column row level' column' row' : ℕ} (hcolumn : column < 2 ^ level)
    (hrow : row < 2 ^ level) (hcolumn' : column' < 2 ^ level') (hrow' : row' < 2 ^ level')
    (h : fileName level column row = fileName level' column' row') :
    (level, column, row) = (level', column', row') := by
  have htail := (List.cons.inj h).2
  have hlevel : level = level' := by
    have hlength := congrArg List.length htail
    rwa [List.length_map, List.length_reverse, List.length_range, List.length_map,
      List.length_reverse, List.length_range] at hlength
  subst hlevel
  have hdigits : ∀ n < level, gcTile column row n = gcTile column' row' n := fun n hn =>
    List.map_inj_left.mp htail n (List.mem_reverse.mpr (List.mem_range.mpr hn))
  have hbits : ∀ x x' : ℕ, x < 2 ^ level → x' < 2 ^ level →
      (∀ n < level, x.testBit n = x'.testBit n) → x = x' := by
    intro x x' hx hx' hsame
    refine Nat.eq_of_testBit_eq fun n => ?_
    rcases Nat.lt_or_ge n level with hn | hn
    · exact hsame n hn
    · have hpow : 2 ^ level ≤ 2 ^ n := Nat.pow_le_pow_right (by omega) hn
      rw [Nat.testBit_lt_two_pow (hx.trans_le hpow), Nat.testBit_lt_two_pow (hx'.trans_le hpow)]
  rw [hbits column column' hcolumn hcolumn' fun n hn => (gcTile_inj (hdigits n hn)).1,
    hbits row row' hrow hrow' fun n hn => (gcTile_inj (hdigits n hn)).2]

/-- What follows the last slash is kept when slashes are stripped in front. -/
theorem rtakeWhile_dropWhile_slash {name : List Char} (hname : ∀ c ∈ name, c ≠ '/')
    (hne : name ≠ []) (front : List Char) :
    ((front ++ '/' :: name).dropWhile fun c => c = '/').rtakeWhile (fun c => c ≠ '/') = name := by
  have hwhole : ∀ front, (front ++ '/' :: name).rtakeWhile (fun c => c ≠ '/') = name := by
    intro front
    rw [List.rtakeWhile, List.reverse_append, List.reverse_cons, List.append_assoc,
      List.singleton_append, List.takeWhile_append_of_pos (by simpa using hname)]
    simp
  induction front with
  | nil =>
    obtain ⟨c, rest, rfl⟩ := List.exists_cons_of_ne_nil hne
    have hc : c ≠ '/' := hname c List.mem_cons_self
    rw [List.nil_append, List.dropWhile_cons_of_pos (by simp), List.dropWhile_cons_of_neg (by simpa)]
    rw [List.rtakeWhile_eq_self_iff]
    simpa using hname
  | cons c front ih =>
    by_cases hc : c = '/'
    · rw [List.cons_append, List.dropWhile_cons_of_pos (by simpa)]
      exact ih
    · rw [List.cons_append, List.dropWhile_cons_of_neg (by simpa), ← List.cons_append]
      exact hwhole (c :: front)

/-- Distinct tiles have distinct paths. -/
theorem pathToTile_inj {level column row level' column' row' : ℕ} (hcolumn : column < 2 ^ level)
    (hrow : row < 2 ^ level) (hcolumn' : column' < 2 ^ level') (hrow' : row' < 2 ^ level')
    (h : pathToTile level column row = pathToTile level' column' row') :
    (level, column, row) = (level', column', row') := by
  have hname : ∀ level column row, ∀ c ∈ fileName level column row ++ ".jpg".toList, c ≠ '/' := by
    intro level column row c hc
    rcases List.mem_append.mp hc with hc | hc
    · rcases List.mem_cons.mp hc with rfl | hc
      · decide
      · obtain ⟨n, -, rfl⟩ := List.mem_map.mp hc
        exact gcTile_ne_slash column row n
    · have hextension : ∀ c ∈ ".jpg".toList, c ≠ '/' := by simp
      exact hextension c hc
  have hlast : ∀ level column row,
      (pathToTile level column row).rtakeWhile (fun c => c ≠ '/') =
        fileName level column row ++ ".jpg".toList := fun level column row =>
    rtakeWhile_dropWhile_slash (hname level column row) (List.cons_ne_nil _ _) _
  have hsame := hlast level column row
  rw [h, hlast level' column' row'] at hsame
  exact fileName_inj hcolumn hrow hcolumn' hrow' (List.append_cancel_right hsame.symm)

end OpenDiamond.Pyramid
