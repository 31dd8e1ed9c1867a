import Mathlib

/-!
# Rtl433 — constants and fixed-width arithmetic of `rtl_433.c`

The preprocessor constants of the receiver, the filter coefficients `a` and `b`, and
the three machine-integer conversions the pipeline performs:

* `toInt16` — the store of an `int` into an `int16_t` cell (`y_buf[i] = ...`): the
  two's-complement wrap, which is the identity on in-range values (`toInt16_of_mem`);
* `wrap32` — `uint32_t` arithmetic (`bytes_to_read -= len`, `len-1-FILTER_ORDER`);
* `FitsInt32` — the range of a signed 32-bit `int`, in which every product and partial
  sum of the filter recurrence must stay for the C arithmetic to be defined.

Everything else in the development is built on exact `Int`/`Nat` arithmetic together
with these conversions, placed where the source converts.
-/

namespace Rtl433

/-! ## Preprocessor constants -/

/-- `FILTER_ORDER`: samples of history the low-pass filter carries between calls. -/
def filterOrder : Nat := 1

/-- `BITBUF_COLS`: bytes per row of a bit packet. -/
def bitbufCols : Nat := 5

/-- `BITBUF_ROWS`: rows of a bit packet. -/
def bitbufRows : Nat := 12

/-- `DEFAULT_BUF_LENGTH`: the default `out_block_size` in bytes. -/
def defaultBufLength : Nat := 16 * 16384

/-- `MINIMAL_BUF_LENGTH`: the smallest accepted `-b` block size. -/
def minimalBufLength : Nat := 512

/-- `MAXIMAL_BUF_LENGTH`: the largest accepted `-b` block size, and the capacity of
`filter_buffer` beyond its `FILTER_ORDER` history slots. -/
def maximalBufLength : Nat := 256 * 16384

/-- `DEFAULT_LEVEL_LIMIT`: the default pulse detection level. -/
def defaultLevelLimit : Int := 10000

/-- The chunk size of replay mode: `fread(test_mode_buf, 131072, 1, test_mode)`. -/
def replayChunkLength : Nat := 131072

/-! ## Filter coefficients

`FIX(x)` is `(int)(x*S_CONST)`: the coefficient in Q15, truncated toward zero. The two
literals of the source are decimal fractions `num / den`; their products with
`S_CONST` (`31754.48…` and `506.79…`) are far from an integer, so the `double`
evaluation truncates to the same value as the exact rational one modelled here. -/

/-- `F_SCALE`: the fixed-point scale of the coefficients. -/
def fScale : Nat := 15

/-- `S_CONST`: `1 << F_SCALE`. -/
def sConst : Nat := 2 ^ fScale

/-- `FIX(num / den)` for a nonnegative decimal literal. -/
def fix (num den : Nat) : Int := (num * sConst / den : Nat)

/-- `int a[FILTER_ORDER+1] = {FIX(1.00000),FIX(0.96907)}`. -/
def a : Fin 2 → Int
  | 0 => fix 100000 100000
  | 1 => fix 96907 100000

/-- `int b[FILTER_ORDER+1] = {FIX(0.015466),FIX(0.015466)}`. -/
def b : Fin 2 → Int
  | 0 => fix 15466 1000000
  | 1 => fix 15466 1000000

@[simp] theorem a_one : a 1 = 31754 := by decide
@[simp] theorem b_zero : b 0 = 506 := by decide
@[simp] theorem b_one : b 1 = 506 := by decide
@[simp] theorem fScale_eq : fScale = 15 := rfl
@[simp] theorem filterOrder_eq : filterOrder = 1 := rfl

/-! ## Machine integers -/

/-- The value an `int16_t` cell holds after `cell = v` for an `int` `v`: two's
complement wrap into `[-32768, 32767]`. -/
def toInt16 (v : Int) : Int := (v + 32768) % 65536 - 32768

/-- The store into an `int16_t` cell changes nothing on values already in range. -/
theorem toInt16_of_mem {v : Int} (lo : -32768 ≤ v) (hi : v ≤ 32767) : toInt16 v = v := by
  unfold toInt16; omega

/-- Every stored `int16_t` lies in its range. -/
theorem toInt16_mem (v : Int) : -32768 ≤ toInt16 v ∧ toInt16 v ≤ 32767 := by
  unfold toInt16; omega

/-- `uint32_t` arithmetic: the value of an `Int` expression reduced modulo `2^32`. -/
def wrap32 (v : Int) : Nat := (v % 2 ^ 32).toNat

theorem wrap32_of_mem {v : Int} (lo : 0 ≤ v) (hi : v < 2 ^ 32) : wrap32 v = v.toNat := by
  unfold wrap32; rw [Int.emod_eq_of_lt lo hi]

/-- The range of a signed 32-bit `int`. -/
def FitsInt32 (v : Int) : Prop := -2 ^ 31 ≤ v ∧ v < 2 ^ 31

instance (v : Int) : Decidable (FitsInt32 v) := inferInstanceAs (Decidable (_ ∧ _))

end Rtl433
