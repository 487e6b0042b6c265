import Pseudoroot.Library.Bytes
import Std.Data.ExtTreeMap
import Mathlib.Data.Prod.Basic

/-! # Self-delimiting binary codecs

A codec reads its own output from the front of any byte string, so codecs compose.
The formats are the fixed-width ones: little-endian integers, one tag byte for
Booleans and options, and an eight-byte count before every sequence. -/

/-- A writer and a parser that undoes it in front of every suffix. -/
structure Codec (α : Type*) where
  put : α → List UInt8
  get : List UInt8 → Option (α × List UInt8)
  get_put : ∀ a rest, get (put a ++ rest) = some (a, rest)

namespace Codec

variable {α β : Type*}

/-- Parse a value and ignore what follows it. -/
def decode (c : Codec α) (bytes : List UInt8) : Option α :=
  (c.get bytes).map Prod.fst

theorem decode_put (c : Codec α) (a : α) : c.decode (c.put a) = some a := by
  have h := c.get_put a []
  rw [List.append_nil] at h
  simp [decode, h]

/-! ## Building blocks -/

/-- Translate through a map with a left inverse. -/
def map (c : Codec α) (f : α → β) (g : β → α) (hfg : ∀ b, f (g b) = b) : Codec β where
  put b := c.put (g b)
  get bytes := (c.get bytes).map fun (a, rest) => (f a, rest)
  get_put b rest := by simp [c.get_put, hfg]

/-- Translate through a partial map that undoes `g`; what it is not defined on is refused. -/
def filterMap (c : Codec α) (f : α → Option β) (g : β → α) (hfg : ∀ b, f (g b) = some b) :
    Codec β where
  put b := c.put (g b)
  get bytes := (c.get bytes).bind fun (a, rest) => (f a).map fun b => (b, rest)
  get_put b rest := by simp [c.get_put, hfg]

def pair (c : Codec α) (d : Codec β) : Codec (α × β) where
  put p := c.put p.1 ++ d.put p.2
  get bytes := (c.get bytes).bind fun (a, rest) =>
    (d.get rest).map fun (b, rest') => ((a, b), rest')
  get_put p rest := by simp [List.append_assoc, c.get_put, d.get_put]

/-- `k` bytes, of which `get` requires all. -/
def raw (k : ℕ) : Codec { bytes : List UInt8 // bytes.length = k } where
  put b := b.1
  get bytes :=
    if h : k ≤ bytes.length then some (⟨bytes.take k, by simp [h]⟩, bytes.drop k) else none
  get_put b rest := by
    obtain ⟨b, rfl⟩ := b
    simp

/-- A `k`-byte little-endian number. -/
def fixed (k : ℕ) : Codec (Fin (256 ^ k)) :=
  (raw k).map (fun b => ⟨Bytes.ofLE b.1 % 256 ^ k, Nat.mod_lt _ (Nat.pow_pos (by decide))⟩)
    (fun v => ⟨Bytes.toLE k v, Bytes.length_toLE k v⟩) (by
      intro v
      apply Fin.ext
      simp [Bytes.ofLE_toLE, Nat.mod_eq_of_lt v.isLt])

def u32 : Codec UInt32 :=
  (fixed 4).map (fun v => UInt32.ofNat v) (fun v => ⟨v.toNat, v.toNat_lt⟩) (by simp)

def u64 : Codec UInt64 :=
  (fixed 8).map (fun v => UInt64.ofNat v) (fun v => ⟨v.toNat, v.toNat_lt⟩) (by simp)

/-- One tag byte: zero for `false` and one for `true`. -/
def bool : Codec Bool where
  put b := [if b then 1 else 0]
  get
    | [] => none
    | t :: rest => if t = 0 then some (false, rest) else if t = 1 then some (true, rest) else none
  get_put b rest := by cases b <;> simp

/-- A tag and, when it is set, the value. -/
def option (c : Codec α) : Codec (Option α) where
  put
    | none => bool.put false
    | some a => bool.put true ++ c.put a
  get bytes := (bool.get bytes).bind fun (present, rest) =>
    if present then (c.get rest).map fun (a, rest') => (some a, rest') else some (none, rest)
  get_put a rest := by
    cases a with
    | none => simp [bool.get_put]
    | some a => simp [List.append_assoc, bool.get_put, c.get_put]

/-! ## Counted sequences -/

private def spill : ℕ → List UInt8
  | 0 => [0]
  | k + 1 => 1 :: spill k

private def unspill : List UInt8 → Option (ℕ × List UInt8)
  | [] => none
  | b :: rest =>
    if b = 0 then some (0, rest) else (unspill rest).map fun (k, rest') => (k + 1, rest')

private theorem unspill_spill (k : ℕ) (rest : List UInt8) :
    unspill (spill k ++ rest) = some (k, rest) := by
  induction k with
  | zero => simp [spill, unspill]
  | succ k ih => simp [spill, unspill, ih]

/-- An eight-byte count. Counts that do not fit, which no address space holds, spill
over so that the codec is total. -/
def count : Codec ℕ where
  put k :=
    if k < 2 ^ 64 - 1 then u64.put (UInt64.ofNat k)
    else u64.put (UInt64.ofNat (2 ^ 64 - 1)) ++ spill k
  get bytes := (u64.get bytes).bind fun (v, rest) =>
    if v.toNat < 2 ^ 64 - 1 then some (v.toNat, rest) else unspill rest
  get_put k rest := by
    split
    · rename_i h
      have hk : (UInt64.ofNat k).toNat = k := by
        rw [UInt64.toNat_ofNat', Nat.mod_eq_of_lt (by omega)]
      simp only [u64.get_put, Option.bind_some, hk, h, ite_true]
    · simp [List.append_assoc, u64.get_put, unspill_spill]

private def getMany (c : Codec α) : ℕ → List UInt8 → Option (List α × List UInt8)
  | 0, bytes => some ([], bytes)
  | k + 1, bytes => (c.get bytes).bind fun (a, rest) =>
      (getMany c k rest).map fun (as, rest') => (a :: as, rest')

private theorem getMany_flatMap (c : Codec α) (as : List α) (rest : List UInt8) :
    getMany c as.length (as.flatMap c.put ++ rest) = some (as, rest) := by
  induction as with
  | nil => simp [getMany]
  | cons a as ih => simp [getMany, List.append_assoc, c.get_put, ih]

def list (c : Codec α) : Codec (List α) where
  put as := count.put as.length ++ as.flatMap c.put
  get bytes := (count.get bytes).bind fun (k, rest) => getMany c k rest
  get_put as rest := by simp [List.append_assoc, count.get_put, getMany_flatMap]

def byte : Codec UInt8 where
  put b := [b]
  get
    | [] => none
    | b :: rest => some (b, rest)
  get_put _ _ := rfl

/-- A byte vector. -/
def bytes : Codec (List UInt8) :=
  list byte

/-- Text as its counted UTF-8 bytes; bytes that are not UTF-8 are refused. -/
def text : Codec String where
  put s := bytes.put s.toByteArray.data.toList
  get bs := (bytes.get bs).bind fun (utf8, rest) =>
    (String.fromUTF8? (ByteArray.mk utf8.toArray)).map fun s => (s, rest)
  get_put s rest := by
    have hutf8 : ByteArray.mk s.toByteArray.data.toList.toArray = s.toByteArray := rfl
    simp [bytes.get_put, hutf8, String.fromUTF8?, String.fromUTF8, s.isValidUTF8]

theorem ofList_toList {κ : Type*} [Ord κ] [Std.TransOrd κ] [Std.LawfulEqOrd κ]
    (m : Std.ExtTreeMap κ α) : Std.ExtTreeMap.ofList m.toList = m := by
  classical
  apply Std.ExtTreeMap.ext_getElem?
  intro k
  cases hk : m[k]? with
  | none =>
      apply Std.ExtTreeMap.getElem?_ofList_of_contains_eq_false
      rw [Std.ExtTreeMap.map_fst_toList_eq_keys]
      simpa using hk
  | some v =>
      exact Std.ExtTreeMap.getElem?_ofList_of_mem (by simp)
        Std.ExtTreeMap.distinct_keys_toList
        (Std.ExtTreeMap.mem_toList_iff_getElem?_eq_some.mpr hk)

/-- A map as its counted bindings in key order. -/
def treeMap {κ : Type*} [Ord κ] [Std.TransOrd κ] [Std.LawfulEqOrd κ] (k : Codec κ) (v : Codec α) :
    Codec (Std.ExtTreeMap κ α) :=
  (list (k.pair v)).map (fun l => Std.ExtTreeMap.ofList l) (fun m => m.toList) ofList_toList

theorem put_list_ne_nil (c : Codec α) (as : List α) : (list c).put as ≠ [] := by
  have hcount : count.put as.length ≠ [] := by
    intro h
    have hget := count.get_put as.length []
    rw [h] at hget
    simp [count, u64, fixed, raw, map] at hget
  simp [list, hcount]

end Codec
