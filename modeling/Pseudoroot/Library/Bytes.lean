import Mathlib.Tactic.Common
import Mathlib.Data.Nat.ModEq

/-! # Fixed-width integers as bytes -/

namespace Bytes

/-- The low `k` bytes of a number, least significant first. -/
def toLE : ℕ → ℕ → List UInt8
  | 0, _ => []
  | k + 1, v => UInt8.ofNat v :: toLE k (v / 256)

/-- The number that bytes spell, least significant first. -/
def ofLE : List UInt8 → ℕ
  | [] => 0
  | b :: bs => b.toNat + 256 * ofLE bs

@[simp] theorem length_toLE (k v : ℕ) : (toLE k v).length = k := by
  induction k generalizing v with
  | zero => rfl
  | succ k ih => simp [toLE, ih]

/-- Writing `k` bytes keeps a number modulo `256 ^ k`. -/
theorem ofLE_toLE (k v : ℕ) : ofLE (toLE k v) = v % 256 ^ k := by
  induction k generalizing v with
  | zero => simp [toLE, ofLE, Nat.mod_one]
  | succ k ih =>
      have hbyte : (UInt8.ofNat v).toNat = v % 256 := by simp
      rw [toLE, ofLE, ih, hbyte, Nat.pow_succ, Nat.mul_comm (256 ^ k), Nat.mod_mul]

theorem ofLE_lt (bs : List UInt8) : ofLE bs < 256 ^ bs.length := by
  induction bs with
  | nil => simp [ofLE]
  | cons b bs ih =>
      have hbyte := b.toNat_lt
      rw [ofLE, List.length_cons, Nat.pow_succ]
      omega

/-- Any bytes are those of the number they spell. -/
theorem toLE_ofLE (bs : List UInt8) : toLE bs.length (ofLE bs) = bs := by
  induction bs with
  | nil => rfl
  | cons b bs ih =>
      have hbyte := b.toNat_lt
      have hhead : UInt8.ofNat (b.toNat + 256 * ofLE bs) = b := by
        apply UInt8.toNat_inj.mp
        rw [UInt8.toNat_ofNat']
        omega
      have htail : (b.toNat + 256 * ofLE bs) / 256 = ofLE bs := by omega
      rw [ofLE, List.length_cons, toLE, hhead, htail, ih]

/-! ## Most significant byte first -/

def toBE (k v : ℕ) : List UInt8 := (toLE k v).reverse

def ofBE (bs : List UInt8) : ℕ := ofLE bs.reverse

@[simp] theorem length_toBE (k v : ℕ) : (toBE k v).length = k := by simp [toBE]

theorem ofBE_toBE (k v : ℕ) : ofBE (toBE k v) = v % 256 ^ k := by
  rw [ofBE, toBE, List.reverse_reverse, ofLE_toLE]

theorem ofBE_lt (bs : List UInt8) : ofBE bs < 256 ^ bs.length := by
  have h := ofLE_lt bs.reverse
  rwa [List.length_reverse] at h

theorem toBE_ofBE (bs : List UInt8) : toBE bs.length (ofBE bs) = bs := by
  have h := toLE_ofLE bs.reverse
  rw [List.length_reverse] at h
  rw [toBE, ofBE, h, List.reverse_reverse]

/-- Only the low `k` bytes of a number are written. -/
theorem toBE_mod (k v : ℕ) : toBE k (v % 256 ^ k) = toBE k v := by
  have h := toBE_ofBE (toBE k v)
  rwa [length_toBE, ofBE_toBE] at h

/-! ## Overwriting part of a buffer -/

/-- Copy `src` over the bytes that begin at `off`. -/
def copyFromSlice (buf : List UInt8) (off : ℕ) (src : List UInt8) : List UInt8 :=
  buf.take off ++ src ++ buf.drop (off + src.length)

theorem length_copyFromSlice {buf src : List UInt8} {off : ℕ}
    (h : off + src.length ≤ buf.length) : (copyFromSlice buf off src).length = buf.length := by
  simp only [copyFromSlice, List.length_append, List.length_take, List.length_drop]
  omega

/-- Reading back the bytes just written. -/
theorem take_drop_copyFromSlice (buf src : List UInt8) (off : ℕ) (h : off ≤ buf.length) :
    ((copyFromSlice buf off src).drop off).take src.length = src := by
  have hlen : (buf.take off).length = off := by simp [h]
  simp [copyFromSlice, List.append_assoc, hlen]

/-- Bytes before the copied range are untouched. -/
theorem take_copyFromSlice {buf src : List UInt8} {off k : ℕ} (hk : k ≤ off)
    (h : off ≤ buf.length) : (copyFromSlice buf off src).take k = buf.take k := by
  have hlen : (buf.take off).length = off := by simp [h]
  rw [copyFromSlice, List.append_assoc, List.take_append_of_le_length (by omega),
    List.take_take, Nat.min_eq_left hk]

theorem getElem?_copyFromSlice {buf src : List UInt8} {off : ℕ}
    (h : off + src.length ≤ buf.length) (i : ℕ) :
    (copyFromSlice buf off src)[i]? =
      if off ≤ i ∧ i < off + src.length then src[i - off]? else buf[i]? := by
  have hoff : (buf.take off).length = off := by
    rw [List.length_take]
    omega
  rw [copyFromSlice, List.getElem?_append, List.getElem?_append, List.length_append, hoff]
  split
  · rename_i hin
    split
    · rename_i hbefore
      rw [List.getElem?_take, if_pos hbefore, if_neg (by omega)]
    · rw [if_pos (by omega)]
  · rename_i hafter
    rw [List.getElem?_drop, if_neg (by omega)]
    congr 1
    omega

/-- A range that the copied one does not meet is untouched. -/
theorem take_drop_copyFromSlice_of_disjoint {buf src : List UInt8} {off a w : ℕ}
    (h : off + src.length ≤ buf.length) (hdisjoint : a + w ≤ off ∨ off + src.length ≤ a) :
    ((copyFromSlice buf off src).drop a).take w = (buf.drop a).take w := by
  refine List.ext_getElem? fun i => ?_
  rw [List.getElem?_take, List.getElem?_take]
  split
  · rw [List.getElem?_drop, List.getElem?_drop, getElem?_copyFromSlice h, if_neg (by omega)]
  · rfl

/-- Copying into a window of a buffer. -/
theorem take_drop_copyFromSlice_window {buf src : List UInt8} {base off w : ℕ}
    (h : base + w ≤ buf.length) (hsrc : off + src.length ≤ w) :
    ((copyFromSlice buf (base + off) src).drop base).take w =
      copyFromSlice ((buf.drop base).take w) off src := by
  have hwindow : ((buf.drop base).take w).length = w := by
    rw [List.length_take, List.length_drop]
    omega
  refine List.ext_getElem? fun i => ?_
  rw [getElem?_copyFromSlice (by omega), List.getElem?_take, List.getElem?_take,
    List.getElem?_drop, List.getElem?_drop, getElem?_copyFromSlice (by omega)]
  by_cases hi : i < w
  · rw [if_pos hi, if_pos hi]
    by_cases hin : off ≤ i ∧ i < off + src.length
    · rw [if_pos (by omega), if_pos hin]
      congr 1
      omega
    · rw [if_neg (by omega), if_neg hin]
  · rw [if_neg hi, if_neg (by omega), if_neg hi]

end Bytes
