import Mathlib

/-!
# Wcn.Lib.ByteStrings

Numbers and byte strings inside byte strings.

* `toBe` — big-endian numbers of a fixed width. Byte strings that start with such numbers are ordered
  by them first (`compare_toBe_append`).
* `toVarint` — numbers of seven bits a byte, the lowest first, up to a number of bytes. Their order as
  byte strings is not that of the numbers.
* `frameBytes` — a byte string behind its length, which can be read back whatever follows it.
-/

namespace Wcn
namespace Lib

abbrev Bytes := List UInt8

/-! ## The order of byte strings -/

instance lawfulOrderOrdByteStrings : Std.LawfulOrderOrd (List UInt8) := by
  have hle : ∀ a b : List UInt8, (compare a b).isLE = true ↔ a ≤ b := by
    intro a
    induction a with
    | nil => intro b; cases b <;> simp
    | cons x a ih =>
      intro b
      cases b with
      | nil => simp
      | cons y b =>
        rw [List.compare_cons_cons, Ordering.isLE_then_iff_or, List.cons_le_cons_iff, ← ih,
          Std.compare_eq_lt, Std.compare_eq_iff_eq]
  exact {
    isLE_compare := hle
    isGE_compare := fun a b => by rw [← hle, Std.OrientedOrd.eq_swap, Ordering.isGE_swap] }

instance linearOrderByteStrings : LinearOrder (List UInt8) := LinearOrder.ofStd (List UInt8)

theorem compare_append_left (p x y : Bytes) : compare (p ++ x) (p ++ y) = compare x y := by
  induction p with
  | nil => rfl
  | cons b p ih =>
    rw [List.cons_append, List.cons_append, List.compare_cons_cons, Std.ReflOrd.compare_self, ih]
    rfl

/-! ## Big-endian numbers -/

/-- The lowest `w` bytes of a number, the highest of them first. -/
def toBe : Nat → Nat → Bytes
  | 0, _ => []
  | w + 1, n => UInt8.ofNat (n / 256 ^ w) :: toBe w n

def ofBe (bytes : Bytes) : Nat := bytes.foldl (fun n byte => n * 256 + byte.toNat) 0

/-- Reads a number of `w` bytes. -/
def readBe (w : Nat) (bytes : Bytes) : Option (Nat × Bytes) :=
  if w ≤ bytes.length then some (ofBe (bytes.take w), bytes.drop w) else none

@[simp] theorem length_toBe (w n : Nat) : (toBe w n).length = w := by
  induction w with
  | zero => rfl
  | succ w ih => exact congrArg (· + 1) ih

theorem mod_pow_succ (n w : Nat) : n % 256 ^ (w + 1) = n / 256 ^ w % 256 * 256 ^ w + n % 256 ^ w := by
  rw [pow_succ, Nat.mod_mul, Nat.mul_comm, Nat.add_comm]

theorem foldl_toBe (w n start : Nat) :
    (toBe w n).foldl (fun n byte => n * 256 + byte.toNat) start = start * 256 ^ w + n % 256 ^ w := by
  induction w generalizing start with
  | zero => simp [toBe, Nat.mod_one]
  | succ w ih =>
    rw [toBe, List.foldl_cons, ih, UInt8.toNat_ofNat', mod_pow_succ]
    ring

theorem ofBe_toBe (w n : Nat) : ofBe (toBe w n) = n % 256 ^ w := by
  rw [ofBe, foldl_toBe, Nat.zero_mul, Nat.zero_add]

theorem readBe_toBe (w n : Nat) (rest : Bytes) :
    readBe w (toBe w n ++ rest) = some (n % 256 ^ w, rest) := by
  have hle : w ≤ (toBe w n ++ rest).length := by
    rw [List.length_append, length_toBe]
    exact Nat.le_add_right _ _
  rw [readBe, if_pos hle, List.take_left' (length_toBe w n), List.drop_left' (length_toBe w n),
    ofBe_toBe]

theorem compare_byte (a b : UInt8) : compare a b = compare a.toNat b.toNat := by
  have hbyte : compare a b = compareOfLessAndEq a b := rfl
  have hnat : compare a.toNat b.toNat = compareOfLessAndEq a.toNat b.toNat := rfl
  simp only [hbyte, hnat, compareOfLessAndEq, UInt8.lt_iff_toNat_lt, UInt8.toNat_inj]

theorem compare_div_mod (a b n : Nat) :
    compare a b = (compare (a / n) (b / n)).then (compare (a % n) (b % n)) := by
  rcases Nat.lt_trichotomy (a / n) (b / n) with h | h | h
  · have hlt : a < b := Nat.lt_of_not_le fun hle => Nat.not_le.mpr h (Nat.div_le_div_right hle)
    rw [compare_lt_iff_lt.mpr h, compare_lt_iff_lt.mpr hlt]
    rfl
  · rw [compare_eq_iff_eq.mpr h, Ordering.eq_then]
    have ha := Nat.div_add_mod a n
    have hb := Nat.div_add_mod b n
    rw [h] at ha
    rcases Nat.lt_trichotomy (a % n) (b % n) with h' | h' | h'
    · rw [compare_lt_iff_lt.mpr h', compare_lt_iff_lt]
      omega
    · rw [compare_eq_iff_eq.mpr h', compare_eq_iff_eq]
      omega
    · rw [compare_gt_iff_gt.mpr h', compare_gt_iff_gt]
      omega
  · have hlt : b < a := Nat.lt_of_not_le fun hle => Nat.not_le.mpr h (Nat.div_le_div_right hle)
    rw [compare_gt_iff_gt.mpr h, compare_gt_iff_gt.mpr hlt]
    rfl

theorem compare_toBe_append (w a b : Nat) (x y : Bytes) :
    compare (toBe w a ++ x) (toBe w b ++ y) =
      (compare (a % 256 ^ w) (b % 256 ^ w)).then (compare x y) := by
  induction w with
  | zero =>
    rw [pow_zero, Nat.mod_one, Nat.mod_one]
    rfl
  | succ w ih =>
    have hdiv : ∀ n : Nat, n % 256 ^ (w + 1) / 256 ^ w = n / 256 ^ w % 256 := fun n => by
      rw [pow_succ, Nat.mod_mul_right_div_self]
    have hmod : ∀ n : Nat, n % 256 ^ (w + 1) % 256 ^ w = n % 256 ^ w := fun n => by
      rw [pow_succ, Nat.mod_mul_right_mod]
    rw [toBe, toBe, List.cons_append, List.cons_append, List.compare_cons_cons, ih, compare_byte,
      UInt8.toNat_ofNat', UInt8.toNat_ofNat', compare_div_mod (a % 256 ^ (w + 1)) _ (256 ^ w), hdiv,
      hdiv, hmod, hmod, Ordering.then_assoc]

/-- A number as a lower bound of byte strings that start with numbers. -/
theorem isLE_compare_toBe {w a b : Nat} (ha : a < 256 ^ w) (hb : b < 256 ^ w) (y : Bytes) :
    (compare (toBe w a) (toBe w b ++ y)).isLE = true ↔ a ≤ b := by
  have hnil : (compare ([] : Bytes) y).isLE = true := by cases y <;> rfl
  have hcompare := compare_toBe_append w a b [] y
  rw [List.append_nil, Nat.mod_eq_of_lt ha, Nat.mod_eq_of_lt hb] at hcompare
  rw [hcompare, Ordering.isLE_then_iff_and, Nat.isLE_compare]
  exact and_iff_left (.inr hnil)

/-- A number as an upper bound of byte strings that start with numbers. -/
theorem isLT_compare_toBe {w a b : Nat} (ha : a < 256 ^ w) (hb : b < 256 ^ w) (x : Bytes) :
    (compare (toBe w a ++ x) (toBe w b)).isLT = true ↔ a < b := by
  have hnil : compare x ([] : Bytes) ≠ .lt := by cases x <;> simp
  have hcompare := compare_toBe_append w a b x []
  rw [List.append_nil, Nat.mod_eq_of_lt ha, Nat.mod_eq_of_lt hb] at hcompare
  rw [hcompare, Ordering.isLT_iff_eq_lt, Ordering.then_eq_lt, Nat.compare_eq_lt]
  exact or_iff_left fun h => hnil h.2

/-! ## Numbers of variable length -/

/-- A number in at most `limit` bytes of seven bits, the lowest first. All but the last byte have
their highest bit set. -/
def toVarint : Nat → Nat → Bytes
  | 0, _ => []
  | limit + 1, n =>
    if n < 128 then [UInt8.ofNat n] else UInt8.ofNat (n % 128 + 128) :: toVarint limit (n / 128)

/-- Reads such a number. The last of `limit` bytes must not exceed `top`. -/
def readVarint (top : Nat) : Nat → Bytes → Option (Nat × Bytes)
  | 0, _ => none
  | _ + 1, [] => none
  | limit + 1, byte :: bytes =>
    if byte.toNat < 128 then
      if limit = 0 ∧ top < byte.toNat then none else some (byte.toNat, bytes)
    else
      (readVarint top limit bytes).map fun (n, rest) => (byte.toNat - 128 + 128 * n, rest)

theorem readVarint_toVarint {top limit n : Nat} (htop : top < 128)
    (hn : n < (top + 1) * 128 ^ limit) (rest : Bytes) :
    readVarint top (limit + 1) (toVarint (limit + 1) n ++ rest) = some (n, rest) := by
  induction limit generalizing n with
  | zero =>
    have hlt : n < 128 := by omega
    rw [toVarint, if_pos hlt, List.singleton_append, readVarint, UInt8.toNat_ofNat',
      Nat.mod_eq_of_lt (by omega), if_pos hlt, if_neg (by omega)]
  | succ limit ih =>
    rw [toVarint]
    by_cases hlt : n < 128
    · rw [if_pos hlt, List.singleton_append, readVarint, UInt8.toNat_ofNat',
        Nat.mod_eq_of_lt (by omega), if_pos hlt, if_neg (by omega)]
    · have hdiv : n / 128 < (top + 1) * 128 ^ limit := by
        rw [Nat.div_lt_iff_lt_mul (by decide), Nat.mul_assoc, ← pow_succ]
        exact hn
      rw [if_neg hlt, List.cons_append, readVarint, UInt8.toNat_ofNat', Nat.mod_eq_of_lt (by omega),
        if_neg (by omega), ih hdiv, Option.map_some]
      refine congrArg some (Prod.ext ?_ rfl)
      dsimp only
      omega

theorem compare_byte_of_lt {a b : Nat} (hab : a < b) (hb : b < 256) :
    compare (UInt8.ofNat a) (UInt8.ofNat b) = .lt := by
  rw [compare_byte, UInt8.toNat_ofNat', UInt8.toNat_ofNat', Nat.mod_eq_of_lt (by omega),
    Nat.mod_eq_of_lt (by omega), compare_lt_iff_lt]
  exact hab

/-- No such number starts with another one, so byte strings behind numbers are ordered by the numbers'
bytes first. -/
theorem compare_toVarint_append {limit n m : Nat} (hn : n < 128 ^ limit) (hm : m < 128 ^ limit)
    (x y : Bytes) :
    compare (toVarint limit n ++ x) (toVarint limit m ++ y) =
      (compare (toVarint limit n) (toVarint limit m)).then (compare x y) := by
  induction limit generalizing n m with
  | zero => rfl
  | succ limit ih =>
    have hdiv : ∀ {k : Nat}, k < 128 ^ (limit + 1) → k / 128 < 128 ^ limit := fun hk => by
      rw [Nat.div_lt_iff_lt_mul (by decide), ← pow_succ]
      exact hk
    -- the last byte of a number is below 128 and the others are not
    by_cases hn' : n < 128 <;> by_cases hm' : m < 128
    · simp only [toVarint, if_pos hn', if_pos hm', List.singleton_append, List.compare_cons_cons,
        Std.ReflOrd.compare_self, Ordering.then_eq]
    · have hlt := compare_byte_of_lt (show n < m % 128 + 128 by omega) (by omega)
      simp only [toVarint, if_pos hn', if_neg hm', List.cons_append, List.compare_cons_cons, hlt,
        Ordering.lt_then]
    · have hlt := compare_byte_of_lt (show m < n % 128 + 128 by omega) (by omega)
      have hgt : compare (UInt8.ofNat (n % 128 + 128)) (UInt8.ofNat m) = .gt :=
        Std.OrientedCmp.gt_iff_lt.mpr hlt
      simp only [toVarint, if_neg hn', if_pos hm', List.cons_append, List.compare_cons_cons, hgt,
        Ordering.gt_then]
    · simp only [toVarint, if_neg hn', if_neg hm', List.cons_append, List.compare_cons_cons,
        ih (hdiv hn) (hdiv hm), Ordering.then_assoc]

/-! ## Byte strings behind their length -/

/-- Lengths of 64 bits: ten bytes, the last of them for one bit. -/
def frameBytes (bytes : Bytes) : Bytes := toVarint 10 bytes.length ++ bytes

/-- Reads a byte string and ignores what follows it. -/
def unframeBytes (bytes : Bytes) : Option Bytes :=
  match readVarint 1 10 bytes with
  | some (n, rest) => if n ≤ rest.length then some (rest.take n) else none
  | none => none

theorem length_toVarint_mono (limit : Nat) {n m : Nat} (h : n ≤ m) :
    (toVarint limit n).length ≤ (toVarint limit m).length := by
  induction limit generalizing n m with
  | zero => exact Nat.le_refl 0
  | succ limit ih =>
    rw [toVarint, toVarint]
    by_cases hm : m < 128
    · rw [if_pos hm, if_pos (by omega)]
      exact Nat.le_refl 1
    · rw [if_neg hm]
      by_cases hn : n < 128
      · rw [if_pos hn]
        exact Nat.succ_le_succ (Nat.zero_le _)
      · rw [if_neg hn]
        exact Nat.succ_le_succ (ih (Nat.div_le_div_right h))

/-- Whatever their length: a longer byte string has a longer frame. -/
theorem frameBytes_injective : Function.Injective frameBytes := by
  intro a b h
  have hlen := congrArg List.length h
  rw [frameBytes, frameBytes, List.length_append, List.length_append] at hlen
  have heq : a.length = b.length := by
    rcases Nat.lt_trichotomy a.length b.length with hlt | heq | hlt
    · have := length_toVarint_mono 10 (Nat.le_of_lt hlt)
      omega
    · exact heq
    · have := length_toVarint_mono 10 (Nat.le_of_lt hlt)
      omega
  rw [frameBytes, frameBytes, heq] at h
  exact List.append_cancel_left h

/-- Byte strings behind their lengths are ordered by the bytes of the lengths first. -/
theorem frameBytes_lt_iff {a b : Bytes} (ha : a.length < 2 ^ 64) (hb : b.length < 2 ^ 64) :
    frameBytes a < frameBytes b ↔ toVarint 10 a.length < toVarint 10 b.length ∨
      a.length = b.length ∧ a < b := by
  have hlimit : (2 : Nat) ^ 64 ≤ 128 ^ 10 := by decide
  have hinj : toVarint 10 a.length = toVarint 10 b.length ↔ a.length = b.length := by
    refine ⟨fun h => ?_, fun h => by rw [h]⟩
    have hread : readVarint 1 10 (toVarint 10 a.length ++ []) = some (a.length, []) :=
      readVarint_toVarint (by decide) (ha.trans_eq (by decide)) []
    rw [h, readVarint_toVarint (by decide) (hb.trans_eq (by decide))] at hread
    exact (congrArg Prod.fst (Option.some.inj hread)).symm
  rw [← Std.compare_eq_lt, frameBytes, frameBytes,
    compare_toVarint_append (ha.trans_le hlimit) (hb.trans_le hlimit), Ordering.then_eq_lt,
    Std.compare_eq_lt, Std.compare_eq_iff_eq, Std.compare_eq_lt, hinj]

theorem unframeBytes_frameBytes {bytes : Bytes} (h : bytes.length < 2 ^ 64) (rest : Bytes) :
    unframeBytes (frameBytes bytes ++ rest) = some bytes := by
  have hlimit : bytes.length < (1 + 1) * 128 ^ 9 := h.trans_eq (by decide)
  have hread := readVarint_toVarint (by decide) hlimit (bytes ++ rest)
  rw [unframeBytes, frameBytes, List.append_assoc, hread]
  dsimp only
  rw [if_pos (by rw [List.length_append]; exact Nat.le_add_right _ _), List.take_left' rfl]

end Lib
end Wcn
