import OpenDiamond.Pyramid

/-!
# The tiles of a GigaPan

The scope list of an image announces the number of its tiles and lists them; an image of a tile is
cut off where its level ends. The number of tiles is rounded up and the size of a level down, so a
last tile has no pixel left when the size leaves a remainder of less than one pixel of its level.
-/

namespace OpenDiamond.GigapanStore

open Lib.Halving Pyramid

/-! ## The program -/

/-- `TILE_SIZE`, and the default `tile_size` of `iter_coords`. -/
def tileSize : ℕ := 256

/-- `tiles_in_gigapan`, `none` when an assertion fails. -/
def tilesInGigapan (width height : ℕ) : Option ℕ :=
  let tilesWide := roundUp ((width : ℚ) / tileSize)
  let tilesHigh := roundUp ((height : ℚ) / tileSize)
  (levelsDeep tilesWide tilesHigh).map fun levels =>
    ((List.range levels).map fun lvl =>
      tilesAtLevel levels tilesWide lvl * tilesAtLevel levels tilesHigh lvl).sum

/-- What the service tells about an image. -/
structure Info where
  /-- Number of levels. -/
  levels : ℕ
  /-- Width in pixels. -/
  width : ℕ
  /-- Height in pixels. -/
  height : ℕ

/-- `level_width` or `level_height`. A level below the last one makes the divisor a fraction. -/
def levelLength (length : ℕ) (realLevel : ℤ) : ℕ :=
  if 0 ≤ realLevel then length / 2 ^ realLevel.toNat else length * 2 ^ (-realLevel).toNat

/-- `img_width` or `img_height`, for the column or row of a tile. -/
def imgLength (levelLength index : ℕ) : ℤ :=
  let bottomRight := (index + 1) * tileSize
  if levelLength < bottomRight then
    (tileSize : ℤ) - ((index + 1) * tileSize - levelLength : ℤ)
  else tileSize

/-- The size to which `get_object` crops a tile. -/
def cropSize (info : Info) (lvl col row : ℕ) : ℤ × ℤ :=
  let realLevel := (info.levels : ℤ) - 1 - lvl
  (imgLength (levelLength info.width realLevel) col,
    imgLength (levelLength info.height realLevel) row)

/-! ## The pyramid is enumerated exactly -/

/-- The coordinates of a pyramid down to a deepest level. -/
structure Enumerates (width height deepest : ℕ) (coords : List (ℕ × ℕ × ℕ)) : Prop where
  /-- No coordinates twice. -/
  nodup : coords.Nodup
  /-- Columns and rows fit their level. -/
  bounded : ∀ level column row, (level, column, row) ∈ coords →
    column < 2 ^ level ∧ row < 2 ^ level
  /-- No level below the deepest. -/
  depth : ∀ level column row, (level, column, row) ∈ coords → level ≤ deepest
  /-- The deepest level is the grid over the image. -/
  grid : ∀ column row, (deepest, column, row) ∈ coords ↔
    column < ⌈(width : ℚ) / 256⌉₊ ∧ row < ⌈(height : ℚ) / 256⌉₊
  /-- Every level is the grid of the deepest one, halved once for each level between them. -/
  levelGrid : ∀ level column row, level ≤ deepest → ((level, column, row) ∈ coords ↔
    column < ⌈(⌈(width : ℚ) / 256⌉₊ : ℚ) / 2 ^ (deepest - level)⌉₊ ∧
      row < ⌈(⌈(height : ℚ) / 256⌉₊ : ℚ) / 2 ^ (deepest - level)⌉₊)
  /-- Every tile is the parent of one of the next level. -/
  parent : ∀ level column row, (level, column, row) ∈ coords → level < deepest →
    ∃ column' row', (level + 1, column', row') ∈ coords ∧ column' / 2 = column ∧ row' / 2 = row

/-- Pixels make tiles. -/
theorem roundUp_pos {length : ℕ} (h : 1 ≤ length) : 0 < roundUp ((length : ℚ) / tileSize) := by
  rw [roundUp, lt_ceil_div_iff (by decide)]
  omega

theorem enumerates_levels {width height levels : ℕ}
    (h : levelsDeep (roundUp ((width : ℚ) / tileSize)) (roundUp ((height : ℚ) / tileSize)) =
      some levels) :
    Enumerates width height (levels - 1) ((List.range levels).flatMap
      (coordsAtLevel levels (roundUp ((width : ℚ) / tileSize))
        (roundUp ((height : ℚ) / tileSize)))) := by
  obtain ⟨hpos, hwide, hhigh⟩ := le_two_pow_of_levelsDeep h
  refine ⟨nodup_levels levels _ _, ?_, ?_, ?_, ?_, ?_⟩
  · intro level column row hmem
    obtain ⟨hlevel, hcolumn, hrow⟩ := mem_levels.mp hmem
    have hsum : level + (levels - level - 1) = levels - 1 := by omega
    rw [← hsum] at hwide hhigh
    exact ⟨lt_two_pow_of_lt_groups hwide hcolumn, lt_two_pow_of_lt_groups hhigh hrow⟩
  · intro level column row hmem
    have hlevel := (mem_levels.mp hmem).1
    omega
  · intro column row
    have hlast : levels - (levels - 1) - 1 = 0 := by omega
    rw [mem_levels, hlast, groups_zero, groups_zero]
    exact and_iff_right (by omega)
  · intro level column row hlevel
    have hrest : levels - level - 1 = levels - 1 - level := by omega
    rw [mem_levels, hrest]
    exact and_iff_right (by omega)
  · intro level column row hmem hlevel
    obtain ⟨-, hcolumn, hrow⟩ := mem_levels.mp hmem
    have hnext : levels - level - 1 = levels - (level + 1) - 1 + 1 := by omega
    rw [hnext] at hcolumn hrow
    refine ⟨2 * column, 2 * row, mem_levels.mpr ⟨by omega, two_mul_lt_groups hcolumn,
      two_mul_lt_groups hrow⟩, by omega, by omega⟩

/-- The enumeration is the pyramid of the image: the grid of every level, each tile once. The
announced number is its length, and the paths of its tiles are distinct. -/
theorem iterCoords_enumerates {width : ℕ} (height : ℕ) (hwidth : 1 ≤ width) :
    ∃ coords deepest, iterCoords width height none tileSize = some coords ∧
      Enumerates width height deepest coords ∧ tilesInGigapan width height = some coords.length ∧
      ∀ level column row level' column' row', (level, column, row) ∈ coords →
        (level', column', row') ∈ coords →
        pathToTile level column row = pathToTile level' column' row' →
        (level, column, row) = (level', column', row') := by
  obtain ⟨levels, hlevels⟩ : ∃ levels, levelsDeep (roundUp ((width : ℚ) / tileSize))
      (roundUp ((height : ℚ) / tileSize)) = some levels := exists_levelsDeep (roundUp_pos hwidth)
  have henumerates := enumerates_levels hlevels
  refine ⟨_, levels - 1, iterCoords_eq hlevels, henumerates, ?_, ?_⟩
  · rw [tilesInGigapan, hlevels, Option.map_some, List.length_flatMap]
    exact congrArg (fun f => some ((List.range levels).map f).sum)
      (funext fun lvl => (length_coordsAtLevel levels _ _ lvl).symm)
  · intro level column row level' column' row' hmem hmem' hpath
    obtain ⟨hcolumn, hrow⟩ := henumerates.bounded level column row hmem
    obtain ⟨hcolumn', hrow'⟩ := henumerates.bounded level' column' row' hmem'
    exact pathToTile_inj hcolumn hrow hcolumn' hrow' hpath

/-- An image of 513 pixels by 513, one more than two tiles, has a pyramid of three levels. -/
theorem iterCoords_enumerates_513 :
    1 ≤ 513 ∧ ∃ coords deepest, iterCoords 513 300 none tileSize = some coords ∧
      Enumerates 513 300 deepest coords ∧ tilesInGigapan 513 300 = some coords.length ∧
      ∀ level column row level' column' row', (level, column, row) ∈ coords →
        (level', column', row') ∈ coords →
        pathToTile level column row = pathToTile level' column' row' →
        (level, column, row) = (level', column', row') :=
  ⟨by decide, iterCoords_enumerates 300 (by decide)⟩

/-! ## Images of tiles -/

/-- The tiles of an image have images: each crop has pixels, none has more than a tile, and the
columns of a level add up to its width. -/
structure HasImages (info : Info) (coords : List (ℕ × ℕ × ℕ)) : Prop where
  /-- Width and height of a crop. -/
  crop : ∀ level column row, (level, column, row) ∈ coords →
    (1 ≤ (cropSize info level column row).1 ∧ (cropSize info level column row).1 ≤ 256) ∧
      1 ≤ (cropSize info level column row).2 ∧ (cropSize info level column row).2 ≤ 256
  /-- The widths of the columns of a level. -/
  widths : ∀ level < info.levels,
    ((List.range (tilesAtLevel info.levels (roundUp ((info.width : ℚ) / tileSize)) level)).map
        fun column => (cropSize info level column 0).1).sum =
      levelLength info.width ((info.levels : ℤ) - 1 - level)

/-- At each level the size leaves no remainder of the tiles, or one of at least a pixel. -/
def LeavesPixels (levels length : ℕ) : Prop :=
  ∀ i < levels, length % (256 * 2 ^ i) = 0 ∨ 2 ^ i ≤ length % (256 * 2 ^ i)

theorem levelLength_eq {levels level : ℕ} (length : ℕ) (h : level < levels) :
    levelLength length ((levels : ℤ) - 1 - level) = length / 2 ^ (levels - level - 1) := by
  have hnonneg : (0 : ℤ) ≤ levels - 1 - level := by omega
  have htoNat : ((levels : ℤ) - 1 - level).toNat = levels - level - 1 := by omega
  rw [levelLength, if_pos hnonneg, htoNat]

/-- The tiles of a level begin inside the image. -/
theorem lt_groups_roundUp_iff {length i c : ℕ} :
    c < groups (roundUp ((length : ℚ) / tileSize)) i ↔ c * (tileSize * 2 ^ i) < length := by
  rw [lt_groups_iff, roundUp, lt_ceil_div_iff (by decide), mul_assoc, mul_comm (2 ^ i)]

/-- The columns of a level make up its width, whatever the remainder is. -/
theorem sum_imgLength {length : ℕ} (hlength : 1 ≤ length) (i : ℕ) :
    ((List.range (groups (roundUp ((length : ℚ) / tileSize)) i)).map
      fun c => imgLength (length / 2 ^ i) c).sum = (length / 2 ^ i : ℕ) := by
  have hpow := Nat.two_pow_pos i
  have hfirst : 0 < groups (roundUp ((length : ℚ) / tileSize)) i :=
    lt_groups_roundUp_iff.mpr (by omega)
  obtain ⟨n, hn⟩ := Nat.exists_eq_succ_of_ne_zero hfirst.ne'
  have hlast : n * (tileSize * 2 ^ i) < length := lt_groups_roundUp_iff.mp (by omega)
  have hend : length ≤ (n + 1) * (tileSize * 2 ^ i) := by
    have hnot : ¬ n + 1 < groups (roundUp ((length : ℚ) / tileSize)) i := by omega
    rw [lt_groups_roundUp_iff] at hnot
    omega
  have hlow : n * tileSize ≤ length / 2 ^ i := by
    rw [Nat.le_div_iff_mul_le hpow, mul_assoc]
    exact hlast.le
  have hhigh : length / 2 ^ i ≤ (n + 1) * tileSize := by
    refine Nat.div_le_of_le_mul ?_
    rwa [mul_comm, mul_assoc]
  rw [hn]
  exact sum_inside hlow hhigh

theorem imgLength_pos_iff {length i : ℕ} :
    (∀ c < groups (roundUp ((length : ℚ) / tileSize)) i, 1 ≤ imgLength (length / 2 ^ i) c) ↔
      length % (256 * 2 ^ i) = 0 ∨ 2 ^ i ≤ length % (256 * 2 ^ i) := by
  rw [← @forall_inside_pos_iff 256 length i (by decide)]
  exact forall_congr' fun c => imp_congr lt_groups_roundUp_iff Iff.rfl

/-- The lengths of the tiles of all levels are positive when the size leaves pixels. -/
theorem forall_imgLength_pos_iff {levels length : ℕ} :
    (∀ level < levels, ∀ c < groups (roundUp ((length : ℚ) / tileSize)) (levels - level - 1),
        1 ≤ imgLength (levelLength length ((levels : ℤ) - 1 - level)) c) ↔
      LeavesPixels levels length := by
  constructor
  · intro h i hi
    have hlevel : levels - 1 - i < levels := by omega
    have hi' : levels - (levels - 1 - i) - 1 = i := by omega
    have hpos := h _ hlevel
    rw [levelLength_eq length hlevel, hi'] at hpos
    exact imgLength_pos_iff.mp hpos
  · intro h level hlevel
    rw [levelLength_eq length hlevel]
    exact imgLength_pos_iff.mpr (h _ (by omega))

/-- Every tile has an image exactly when neither size leaves a remainder below one pixel of a level;
otherwise the last tile of that level would be cut to no width or no height. -/
theorem hasImages_iff {width height levels : ℕ} {coords : List (ℕ × ℕ × ℕ)} (hwidth : 1 ≤ width)
    (hheight : 1 ≤ height)
    (hlevels : levelsDeep (roundUp ((width : ℚ) / tileSize)) (roundUp ((height : ℚ) / tileSize)) =
      some levels)
    (hcoords : iterCoords width height none tileSize = some coords) :
    HasImages ⟨levels, width, height⟩ coords ↔
      LeavesPixels levels width ∧ LeavesPixels levels height := by
  have heq := (Option.some.inj (hcoords.symm.trans (iterCoords_eq hlevels)))
  subst heq
  have hwide : ∀ i, 0 < groups (roundUp ((width : ℚ) / tileSize)) i := fun i =>
    lt_groups_roundUp_iff.mpr (by omega)
  have hhigh : ∀ i, 0 < groups (roundUp ((height : ℚ) / tileSize)) i := fun i =>
    lt_groups_roundUp_iff.mpr (by omega)
  rw [← forall_imgLength_pos_iff, ← forall_imgLength_pos_iff]
  constructor
  · intro h
    refine ⟨fun level hlevel column hcolumn => ?_, fun level hlevel row hrow => ?_⟩
    · exact (h.crop level column 0 (mem_levels.mpr ⟨hlevel, hcolumn, hhigh _⟩)).1.1
    · exact (h.crop level 0 row (mem_levels.mpr ⟨hlevel, hwide _, hrow⟩)).2.1
  · rintro ⟨hwidths, hheights⟩
    constructor
    · intro level column row hmem
      obtain ⟨hlevel, hcolumn, hrow⟩ := mem_levels.mp hmem
      exact ⟨⟨hwidths level hlevel column hcolumn, inside_le tileSize _ column⟩,
        hheights level hlevel row hrow, inside_le tileSize _ row⟩
    · intro level hlevel
      have hsum := sum_imgLength hwidth (levels - level - 1)
      rw [← levelLength_eq width hlevel] at hsum
      rw [tilesAtLevel_eq]
      exact hsum

theorem levelsDeep_512 : levelsDeep (roundUp (((512 : ℕ) : ℚ) / tileSize))
    (roundUp (((512 : ℕ) : ℚ) / tileSize)) = some 2 := by decide +kernel

/-- An image of two tiles by two has four whole tiles below a single one, and an image for each. -/
theorem hasImages_512 :
    ∃ coords, iterCoords 512 512 none tileSize = some coords ∧
      (HasImages ⟨2, 512, 512⟩ coords ↔ LeavesPixels 2 512 ∧ LeavesPixels 2 512) :=
  ⟨_, iterCoords_eq levelsDeep_512,
    hasImages_iff (by decide) (by decide) levelsDeep_512 (iterCoords_eq levelsDeep_512)⟩

/-- One pixel more, and the second column of the second level is empty, though its tiles are
enumerated. -/
theorem empty_tile_513 :
    ∃ coords, levelsDeep (roundUp (((513 : ℕ) : ℚ) / tileSize))
        (roundUp (((513 : ℕ) : ℚ) / tileSize)) = some 3 ∧
      iterCoords 513 513 none tileSize = some coords ∧ (1, 1, 0) ∈ coords ∧
      (cropSize ⟨3, 513, 513⟩ 1 1 0).1 = 0 ∧ ¬ HasImages ⟨3, 513, 513⟩ coords := by
  have hlevels : levelsDeep (roundUp (((513 : ℕ) : ℚ) / tileSize))
      (roundUp (((513 : ℕ) : ℚ) / tileSize)) = some 3 := by decide +kernel
  have hmem : (1, 1, 0) ∈ (List.range 3).flatMap (coordsAtLevel 3
      (roundUp (((513 : ℕ) : ℚ) / tileSize)) (roundUp (((513 : ℕ) : ℚ) / tileSize))) := by
    refine mem_levels.mpr ⟨by decide, ?_, ?_⟩ <;> rw [lt_groups_roundUp_iff] <;> decide
  refine ⟨_, hlevels, iterCoords_eq hlevels, hmem, by decide, fun h => ?_⟩
  have hsize := (h.crop 1 1 0 hmem).1.1
  revert hsize
  decide

end OpenDiamond.GigapanStore
