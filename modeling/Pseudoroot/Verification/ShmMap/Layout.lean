import Pseudoroot.Library.Layout
import Pseudoroot.Model.ShmLayout
import Pseudoroot.Verification.ShmMap.History

/-! # The layout of created maps -/

namespace Pseudoroot

namespace ShmWords

variable {slotCount : UInt32}

/-! ## Words do not wrap -/

theorem toNat_slotOffset (index : UInt32) :
    (slotOffset index).toNat = headerSize + slotSize * index.toNat := by
  have hindex := index.toNat_lt
  simp only [slotOffset, headerSize, slotSize, UInt64.toNat_add, UInt64.toNat_mul,
    UInt64.toNat_ofNat', UInt32.toNat_toUInt64]
  omega

theorem toNat_xattrRegionOffset (slotCount : UInt32) :
    (xattrRegionOffset slotCount).toNat = headerSize + slotSize * slotCount.toNat :=
  toNat_slotOffset slotCount

theorem toNat_xattrPageOffset (slotCount index : UInt32) :
    (xattrPageOffset slotCount index).toNat =
      headerSize + slotSize * slotCount.toNat + xattrPageSize * index.toNat := by
  have hcount := slotCount.toNat_lt
  have hindex := index.toNat_lt
  rw [xattrPageOffset, UInt64.toNat_add, toNat_xattrRegionOffset]
  simp only [headerSize, slotSize, xattrPageSize, UInt64.toNat_mul, UInt64.toNat_ofNat',
    UInt32.toNat_toUInt64]
  omega

/-- The bucket in words is the bucket of the map. -/
theorem toNat_hash [NeZero slotCount.toNat] (dev ino : UInt64) :
    (hash slotCount dev ino).toNat =
      (ShmInodeMap.hash (dev, ino) : Fin slotCount.toNat) := by
  have hlt : (dev ^^^ ino * 0x9E3779B97F4A7C15).toNat % slotCount.toNat < slotCount.toNat :=
    Nat.mod_lt _ (Nat.pos_of_neZero _)
  have hcount := slotCount.toNat_lt
  rw [hash, UInt64.toNat_toUInt32, UInt64.toNat_mod, UInt32.toNat_toUInt64]
  exact Nat.mod_eq_of_lt (hlt.trans hcount)

/-- With at most `2 ^ 31` slots the step does not overflow, and it is the step of the map. -/
theorem toNat_next (hcount : slotCount.toNat ≤ 2 ^ 31) {idx : UInt32}
    (hidx : idx.toNat < slotCount.toNat) :
    (next slotCount idx).toNat = LinearProbing.next ⟨idx.toNat, hidx⟩ := by
  rw [next, UInt32.toNat_mod, UInt32.toNat_add, UInt32.toNat_one,
    Nat.mod_eq_of_lt (a := idx.toNat + 1) (by omega)]
  rfl

/-! ## The probe sequence -/

/-- The sequence from `start` is the path of linear probing. -/
theorem iterate_next (hcount : slotCount.toNat ≤ 2 ^ 31) {start : UInt32}
    (hstart : start.toNat < slotCount.toNat) (d : ℕ) :
    ((next slotCount)^[d] start).toNat = LinearProbing.advance ⟨start.toNat, hstart⟩ d := by
  induction d with
  | zero => simp
  | succ d ih =>
      have hlt : ((next slotCount)^[d] start).toNat < slotCount.toNat := by
        rw [ih]
        exact Fin.isLt _
      rw [Function.iterate_succ_apply', toNat_next hcount hlt, ← LinearProbing.next_advance]
      simp only [ih]

/-- It comes to every slot at exactly one step below the slot count. -/
theorem existsUnique_step (hcount : slotCount.toNat ≤ 2 ^ 31) {start i : UInt32}
    (hstart : start < slotCount) (hi : i < slotCount) :
    ∃! d, d < slotCount.toNat ∧ (next slotCount)^[d] start = i := by
  rw [UInt32.lt_iff_toNat_lt] at hstart hi
  let s : Fin slotCount.toNat := ⟨start.toNat, hstart⟩
  let t : Fin slotCount.toNat := ⟨i.toNat, hi⟩
  have hmeet : ∀ d, (next slotCount)^[d] start = i ↔ LinearProbing.advance s d = t := by
    intro d
    rw [← UInt32.toNat_inj, iterate_next hcount hstart, Fin.ext_iff]
  refine ⟨LinearProbing.distance s t, ⟨LinearProbing.distance_lt s t, ?_⟩, ?_⟩
  · rw [hmeet, LinearProbing.advance_distance]
  · rintro d ⟨hd, hiter⟩
    rw [hmeet] at hiter
    rw [← hiter, LinearProbing.distance_advance s hd]

end ShmWords

/-! ## Parts of an object -/

open Layout

/-- What the accessors of a map give access to. -/
inductive Part where
  | header
  | slot (i : UInt32)
  | xattrPage (i : UInt32)

namespace Part

/-- The bytes that the accessor reaches, counted from the base. -/
def bytes (slotCount : UInt32) : Part → Set ℕ
  | header => field 0 headerSize
  | slot i => field (ShmWords.slotOffset i).toNat slotSize
  | xattrPage i => field (ShmWords.xattrPageOffset slotCount i).toNat xattrPageSize

/-- The parts of a map with this slot count. -/
def Within (slotCount : UInt32) : Part → Prop
  | header => True
  | slot i => i < slotCount
  | xattrPage i => i < slotCount

variable {slotCount : UInt32} {p q : Part}

/-- The slots end where the pages begin, and the pages end with the object. -/
theorem bytes_subset (hp : p.Within slotCount) :
    p.bytes slotCount ⊆ Set.Iio (headerSize + slotSize * slotCount.toNat +
      xattrPageSize * slotCount.toNat) := by
  cases p with
  | header => exact field_subset (by omega)
  | slot i =>
      rw [bytes, ShmWords.toNat_slotOffset]
      exact field_subset
        ((element_end_le (UInt32.lt_iff_toNat_lt.mp hp)).trans (Nat.le_add_right _ _))
  | xattrPage i =>
      rw [bytes, ShmWords.toNat_xattrPageOffset]
      exact field_subset (element_end_le (UInt32.lt_iff_toNat_lt.mp hp))

theorem disjoint_slot (i : UInt32) :
    Disjoint (header.bytes slotCount) ((slot i).bytes slotCount) := by
  rw [bytes, bytes, ShmWords.toNat_slotOffset]
  exact disjoint_field (by omega)

theorem disjoint_header_xattrPage (i : UInt32) :
    Disjoint (header.bytes slotCount) ((xattrPage i).bytes slotCount) := by
  rw [bytes, bytes, ShmWords.toNat_xattrPageOffset]
  exact disjoint_field (by omega)

theorem disjoint_slot_xattrPage {i : UInt32} (hi : i < slotCount) (j : UInt32) :
    Disjoint ((slot i).bytes slotCount) ((xattrPage j).bytes slotCount) := by
  rw [bytes, bytes, ShmWords.toNat_slotOffset, ShmWords.toNat_xattrPageOffset]
  exact disjoint_field
    ((element_end_le (UInt32.lt_iff_toNat_lt.mp hi)).trans (Nat.le_add_right _ _))

/-- Two parts share no byte. -/
theorem disjoint_bytes (hp : p.Within slotCount) (hq : q.Within slotCount) (hpq : p ≠ q) :
    Disjoint (p.bytes slotCount) (q.bytes slotCount) := by
  cases p with
  | header =>
      cases q with
      | header => exact absurd rfl hpq
      | slot j => exact disjoint_slot j
      | xattrPage j => exact disjoint_header_xattrPage j
  | slot i =>
      cases q with
      | header => exact (disjoint_slot i).symm
      | slot j =>
          have hij : i.toNat ≠ j.toNat := fun h => hpq (congrArg slot (UInt32.toNat_inj.mp h))
          simp only [bytes, ShmWords.toNat_slotOffset]
          exact disjoint_element hij
      | xattrPage j => exact disjoint_slot_xattrPage hp j
  | xattrPage i =>
      cases q with
      | header => exact (disjoint_header_xattrPage i).symm
      | slot j => exact (disjoint_slot_xattrPage hq i).symm
      | xattrPage j =>
          have hij : i.toNat ≠ j.toNat := fun h => hpq (congrArg xattrPage (UInt32.toNat_inj.mp h))
          simp only [bytes, ShmWords.toNat_xattrPageOffset]
          exact disjoint_element hij

end Part

/-! ## The slot count -/

/-- The power of two fits 32 bits exactly for sizes up to `2 ^ 31`. -/
theorem nextPowerOfTwo_lt_iff (requested : UInt32) :
    requested.toNat.nextPowerOfTwo < 2 ^ 32 ↔ requested.toNat ≤ 2 ^ 31 := by
  constructor
  · intro h
    by_contra hlarge
    exact absurd (PowerOfTwo.le_next_of_lt (Nat.not_le.mp hlarge)) (Nat.not_le.mpr h)
  · intro h
    exact lt_of_le_of_lt (PowerOfTwo.next_le h) (by decide)

section Fits

variable {requested : UInt32} (h : requested.toNat ≤ 2 ^ 31)

include h

theorem nextPowerOfTwo_eq : nextPowerOfTwo requested = requested.toNat.nextPowerOfTwo :=
  Nat.mod_eq_of_lt ((nextPowerOfTwo_lt_iff requested).mpr h)

theorem le_tableSlotCount : requested.toNat ≤ tableSlotCount requested := by
  rw [tableSlotCount, nextPowerOfTwo_eq h]
  exact (PowerOfTwo.le_next _).trans (Nat.le_max_left _ _)

theorem tableSlotCount_le_two_pow : tableSlotCount requested ≤ 2 ^ 31 := by
  rw [tableSlotCount, nextPowerOfTwo_eq h]
  exact Nat.max_le.mpr ⟨PowerOfTwo.next_le h, by decide⟩

theorem isPowerOfTwo_tableSlotCount : (tableSlotCount requested).isPowerOfTwo := by
  rw [tableSlotCount, nextPowerOfTwo_eq h]
  rcases Nat.le_total requested.toNat.nextPowerOfTwo 1024 with hle | hle
  · rw [Nat.max_eq_right hle]
    exact ⟨10, rfl⟩
  · rw [Nat.max_eq_left hle]
    exact Nat.isPowerOfTwo_nextPowerOfTwo _

end Fits

/-- A larger size wraps to zero, so that the table has the least number of slots. -/
theorem tableSlotCount_of_large {requested : UInt32} (h : 2 ^ 31 < requested.toNat) :
    tableSlotCount requested = 1024 := by
  have hle : requested.toNat.nextPowerOfTwo ≤ 2 ^ 32 :=
    PowerOfTwo.next_le requested.toNat_lt.le
  have heq := Nat.le_antisymm hle (PowerOfTwo.le_next_of_lt h)
  rw [tableSlotCount, nextPowerOfTwo, heq, Nat.mod_self]
  rfl

/-! ## Main results -/

/-- A layout in which every index is usable, for a map with at least `requested` slots. -/
structure ShmInodeMap.LaidOut {n : ℕ} (requested : UInt32) (map : ShmInodeMap n) : Prop where
  count : map.header.slotCount.toNat = n
  enough : requested ≤ map.header.slotCount
  powerOfTwo : n.isPowerOfTwo
  least : 1024 ≤ n
  inside : ∀ part : Part, part.Within map.header.slotCount →
    part.bytes map.header.slotCount ⊆ Set.Iio map.len
  disjoint : ∀ p q : Part, p.Within map.header.slotCount → q.Within map.header.slotCount →
    p ≠ q → Disjoint (p.bytes map.header.slotCount) (q.bytes map.header.slotCount)
  aligned : ∀ base, slotAlign ∣ base → ∀ i < map.header.slotCount,
    slotAlign ∣ base + (ShmWords.slotOffset i).toNat
  hash_lt : ∀ dev ino, ShmWords.hash map.header.slotCount dev ino < map.header.slotCount
  step : ∀ idx < map.header.slotCount, idx.toNat + 1 < 2 ^ 32
  visits : ∀ start < map.header.slotCount, ∀ i < map.header.slotCount,
    ∃! d, d < map.header.slotCount.toNat ∧ (ShmWords.next map.header.slotCount)^[d] start = i

/-- An error, or a map that is laid out well. -/
def CreateOutcome.LaidOutOrRefused {n : ℕ} (requested : UInt32) : CreateOutcome n → Prop
  | .panicked => False
  | .err _ => True
  | .ok map => map.LaidOut requested

theorem laidOut_initHeader {requested : UInt32} (h : requested.toNat ≤ 2 ^ 31)
    (uid gid : UInt32) :
    (ShmInodeMap.initHeader (tableSlotCount requested)
      (headerSize + slotSize * tableSlotCount requested +
        xattrPageSize * tableSlotCount requested) uid gid).LaidOut requested := by
  have hle := tableSlotCount_le_two_pow h
  have hcount : (UInt32.ofNat (tableSlotCount requested)).toNat = tableSlotCount requested := by
    rw [UInt32.toNat_ofNat', Nat.mod_eq_of_lt (by omega)]
  have hpos : 0 < tableSlotCount requested := Nat.pos_of_neZero _
  constructor
  case count => exact hcount
  case enough =>
    rw [UInt32.le_iff_toNat_le]
    exact (le_tableSlotCount h).trans_eq hcount.symm
  case powerOfTwo => exact isPowerOfTwo_tableSlotCount h
  case least => exact Nat.le_max_right _ _
  case inside =>
    intro part hpart
    have hsubset := part.bytes_subset hpart
    rwa [ShmInodeMap.initHeader, hcount] at hsubset
  case disjoint => exact fun p q hp hq hpq => Part.disjoint_bytes hp hq hpq
  case aligned =>
    intro base hbase i _
    rw [ShmWords.toNat_slotOffset]
    refine (Nat.dvd_add_right hbase).mpr ((Nat.dvd_add_right ?_).mpr ?_)
    · decide
    · exact Dvd.dvd.mul_right (by decide) _
  case hash_lt =>
    intro dev ino
    have : NeZero (UInt32.ofNat (tableSlotCount requested)).toNat := ⟨by omega⟩
    rw [UInt32.lt_iff_toNat_lt, ShmInodeMap.initHeader, ShmWords.toNat_hash]
    exact Fin.isLt _
  case step =>
    intro idx hidx
    rw [UInt32.lt_iff_toNat_lt, ShmInodeMap.initHeader, hcount] at hidx
    omega
  case visits =>
    intro start hstart i hi
    exact ShmWords.existsUnique_step (by rw [ShmInodeMap.initHeader, hcount]; exact hle) hstart hi

/-- For every size, `create` returns an error or a map that is laid out well exactly when the
size is at most `2 ^ 31`, or overflow is not checked and a system call fails. -/
theorem create_laidOut_iff (checks : Bool) (os : ShmOs) (requested uid gid : UInt32) :
    (ShmInodeMap.create checks os requested uid gid).LaidOutOrRefused requested ↔
      requested.toNat ≤ 2 ^ 31 ∨ checks = false ∧ os.succeeds = false := by
  by_cases hsmall : requested.toNat ≤ 2 ^ 31
  · rw [create_eq (.inr ((nextPowerOfTwo_lt_iff requested).mpr hsmall))]
    refine iff_of_true ?_ (.inl hsmall)
    split
    · exact laidOut_initHeader hsmall uid gid
    · trivial
  · rw [or_iff_right hsmall]
    have hlarge := Nat.not_le.mp hsmall
    cases checks with
    | true =>
        have hwrap := PowerOfTwo.le_next_of_lt hlarge
        rw [ShmInodeMap.create, if_pos ⟨rfl, hwrap⟩]
        simp [CreateOutcome.LaidOutOrRefused]
    | false =>
        rw [create_eq (.inl rfl)]
        cases hos : os.succeeds with
        | false => simp [CreateOutcome.LaidOutOrRefused]
        | true =>
            refine iff_of_false (fun hlaid => ?_) (by simp)
            have henough := UInt32.le_iff_toNat_le.mp hlaid.enough
            rw [hlaid.count, tableSlotCount_of_large hlarge] at henough
            omega

/-- The first size that wraps: the map has 1024 slots. -/
theorem create_wraps :
    ¬ (ShmInodeMap.create false ⟨true, true, true⟩ 2147483649 0 0).LaidOutOrRefused
        2147483649 ∧
      tableSlotCount 2147483649 = 1024 ∧
      ShmInodeMap.create true ⟨true, true, true⟩ 2147483649 0 0 = .panicked := by
  have hcount : tableSlotCount 2147483649 = 1024 := tableSlotCount_of_large (by decide)
  refine ⟨?_, hcount, ?_⟩
  · rw [create_eq_ok]
    intro hlaid
    have henough := UInt32.le_iff_toNat_le.mp hlaid.enough
    rw [hlaid.count, hcount] at henough
    exact absurd henough (by decide)
  · exact if_pos ⟨rfl, PowerOfTwo.le_next_of_lt (k := 31) (by decide)⟩

end Pseudoroot
