import Mathlib.Order.Basic
import Mathlib.Algebra.Group.Nat.Basic
import Mathlib.Algebra.Group.Int

/-! # C integer conversions, status codes and character arrays

The body filter computes with `size_t`, `int64_t`, `off_t` and `int` values. Each is
modelled by its exact value, and a C conversion or wrapping operation is one of the
explicit maps below, written exactly where the C code converts. Overflow is therefore
visible in the model's text, never hidden in a type. Likewise a string written into a fixed
array with `snprintf`, `strcpy` or `strcat` either fits, with its NUL, or is a write past
the array, which the model returns as `none`.
-/

namespace IronBee

/-- Conversion of an exact integer into `size_t`: the value modulo `2^64`. -/
def toSize (x : Int) : Nat := (x % 2 ^ 64).toNat

/-- Conversion into `int64_t` (also `off_t`): two's complement wrap into `[-2^63, 2^63)`. -/
def toInt64 (x : Int) : Int := (x + 2 ^ 63) % 2 ^ 64 - 2 ^ 63

/-- Conversion into a 32-bit `int`, as the `return` of `qcompare` performs it. -/
def toCInt (x : Int) : Int := (x + 2 ^ 31) % 2 ^ 32 - 2 ^ 31

theorem toSize_lt (x : Int) : toSize x < 2 ^ 64 := by
  unfold toSize; omega

theorem toSize_of_lt {x : Int} (h0 : 0 ≤ x) (h : x < 2 ^ 64) : toSize x = x := by
  unfold toSize; omega

theorem toSize_natCast {n : Nat} (h : n < 2 ^ 64) : toSize n = n := by
  unfold toSize; omega

theorem toSize_add {a b : Nat} (h : a + b < 2 ^ 64) : toSize ((a : Int) + b) = a + b := by
  unfold toSize; omega

theorem toSize_sub {a b : Nat} (hb : b ≤ a) (ha : a < 2 ^ 64) :
    toSize ((a : Int) - b) = a - b := by
  unfold toSize; omega

theorem toSize_emod (x : Int) : (toSize x : Int) = x % 2 ^ 64 := by
  unfold toSize; omega

theorem toInt64_of_range {x : Int} (h0 : -2 ^ 63 ≤ x) (h : x < 2 ^ 63) : toInt64 x = x := by
  unfold toInt64; omega

theorem toInt64_range (x : Int) : -2 ^ 63 ≤ toInt64 x ∧ toInt64 x < 2 ^ 63 := by
  unfold toInt64; omega

theorem toInt64_emod (x : Int) : toInt64 x % 2 ^ 64 = x % 2 ^ 64 := by
  unfold toInt64; omega

theorem toInt64_congr {x y : Int} (h : x % 2 ^ 64 = y % 2 ^ 64) : toInt64 x = toInt64 y := by
  unfold toInt64; omega

/-- The values of `ib_status_t` that the modelled code returns or tests. -/
inductive Status where
  | ok
  | eunknown
  | ealloc
  | einval
  | enoent
  | eagain
  | ebadval
  deriving DecidableEq, Repr

/-! ## C strings in fixed arrays -/

/-- A C character array of `cap` bytes holding a NUL-terminated string. -/
structure CBuf where
  cap : Nat
  chars : List Char
  fits : chars.length < cap

/-- `snprintf(buf, n, ...)` into an array of `cap` bytes: at most `n - 1` characters and the NUL; `n
= 0` or `n > cap` is taken as a write past the array. -/
def CBuf.snprintf (cap n : Nat) (s : List Char) : Option CBuf :=
  if h : 0 < n ∧ n ≤ cap then
    some ⟨cap, s.take (n - 1), by rw [List.length_take]; omega⟩
  else none

/-- `strcpy(buf, s)` into an array of `cap` bytes. -/
def CBuf.strcpy (cap : Nat) (s : List Char) : Option CBuf :=
  if h : s.length < cap then some ⟨cap, s, h⟩ else none

/-- `strcat(buf, s)`: `none` when the result and its NUL do not fit. -/
def CBuf.strcat (b : CBuf) (s : List Char) : Option CBuf :=
  if h : b.chars.length + s.length < b.cap then
    some ⟨b.cap, b.chars ++ s, by rw [List.length_append]; exact h⟩
  else none

namespace CBuf

theorem snprintf_some (cap : Nat) {n : Nat} (s : List Char) (h0 : 0 < n) (hn : n ≤ cap) :
    ∃ b, CBuf.snprintf cap n s = some b ∧ b.cap = cap ∧ b.chars = s.take (n - 1) :=
  ⟨_, dif_pos ⟨h0, hn⟩, rfl, rfl⟩

theorem strcpy_some (cap : Nat) {s : List Char} (h : s.length < cap) :
    ∃ b, CBuf.strcpy cap s = some b ∧ b.cap = cap ∧ b.chars = s :=
  ⟨_, dif_pos h, rfl, rfl⟩

theorem strcat_some (b : CBuf) {s : List Char} (h : b.chars.length + s.length < b.cap) :
    ∃ b', b.strcat s = some b' ∧ b'.cap = b.cap ∧ b'.chars = b.chars ++ s :=
  ⟨_, dif_pos h, rfl, rfl⟩

theorem strcat_none (b : CBuf) {s : List Char} (h : b.cap ≤ b.chars.length + s.length) :
    b.strcat s = none :=
  dif_neg (by omega)

end CBuf

end IronBee
