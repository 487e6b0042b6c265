import Pseudoroot.Library.Decimal
import Pseudoroot.Verification.ShmMap.FromFd
import Pseudoroot.Verification.ShmMap.Stores

/-! # The bytes of a shared table

An object holds a table when each field and page is read there as it is in the table. Every
store keeps this, so a process that maps the object gets the table of that moment. -/

namespace Pseudoroot

/-! ## Reading after a store -/

section Store

variable {object src : List UInt8} {off at' : ℕ}

theorem Header.ofObject_store (h : headerSize ≤ object.length) (w : HeaderWord) (value : UInt32) :
    ofObject (Bytes.copyFromSlice object w.offset (Bytes.toLE 4 value.toNat)) =
      (ofObject object).set w value := by
  have hw := w.offset_le
  have hinside : w.offset + (Bytes.toLE 4 value.toNat).length ≤ object.length := by
    rw [Bytes.length_toLE]
    omega
  refine eq_of_word_eq fun w' => ?_
  rw [word_ofObject, word_set]
  split
  · rename_i heq
    rw [heq, fieldAt_store_self (by omega)]
    exact Nat.mod_eq_of_lt value.toNat_lt
  · rename_i hne
    have hdisjoint := HeaderWord.disjoint hne
    rw [fieldAt_store_of_disjoint hinside (by rwa [Bytes.length_toLE]), word_ofObject]

theorem Slot.ofObject_store (h : at' + slotSize ≤ object.length) (w : SlotWord) (value : UInt64) :
    ofObject (Bytes.copyFromSlice object (at' + w.offset) (Bytes.toLE w.width value.toNat)) at' =
      (ofObject object at').set w value := by
  have hw := w.offset_le
  have hinside : at' + w.offset + (Bytes.toLE w.width value.toNat).length ≤ object.length := by
    rw [Bytes.length_toLE]
    omega
  refine eq_of_word_eq fun w' => ?_
  rw [word_ofObject, word_set]
  split
  · rename_i heq
    rw [heq, fieldAt_store_self (by omega)]
  · rename_i hne
    have hdisjoint := SlotWord.disjoint hne
    rw [fieldAt_store_of_disjoint hinside (by rw [Bytes.length_toLE]; omega), word_ofObject]

theorem Header.ofObject_store_of_disjoint (h : off + src.length ≤ object.length)
    (hoff : headerSize ≤ off) :
    ofObject (Bytes.copyFromSlice object off src) = ofObject object := by
  refine eq_of_word_eq fun w => ?_
  have hw := w.offset_le
  rw [word_ofObject, word_ofObject, fieldAt_store_of_disjoint h (.inl (by omega))]

theorem Slot.ofObject_store_of_disjoint (h : off + src.length ≤ object.length)
    (hdisjoint : at' + slotSize ≤ off ∨ off + src.length ≤ at') :
    ofObject (Bytes.copyFromSlice object off src) at' = ofObject object at' := by
  refine eq_of_word_eq fun w => ?_
  have hw := w.offset_le
  rw [word_ofObject, word_ofObject, fieldAt_store_of_disjoint h (by omega)]

theorem XattrPage.eq_of_bytes_eq {page page' : XattrPage} (h : page.bytes = page'.bytes) :
    page = page' := by
  obtain ⟨bytes, hlength⟩ := page
  obtain ⟨bytes', hlength'⟩ := page'
  cases h
  rfl

theorem XattrPage.bytes_ofObject (h : at' + xattrPageSize ≤ object.length) :
    (ofObject object at').bytes = (object.drop at').take xattrPageSize := by
  have hfull : ((object.drop at').take xattrPageSize).length = xattrPageSize := by
    rw [List.length_take, List.length_drop]
    omega
  simp only [ofObject, List.rightpad, hfull, Nat.sub_self, List.replicate_zero, List.append_nil]

theorem XattrPage.ofObject_store_of_disjoint (h : off + src.length ≤ object.length)
    (hdisjoint : at' + xattrPageSize ≤ off ∨ off + src.length ≤ at') :
    ofObject (Bytes.copyFromSlice object off src) at' = ofObject object at' := by
  apply eq_of_bytes_eq
  simp only [ofObject, Bytes.take_drop_copyFromSlice_of_disjoint h hdisjoint]

/-- A store into a page is the copy into the page that was read before. -/
theorem XattrPage.ofObject_store_window (h : at' + xattrPageSize ≤ object.length)
    (hsrc : off + src.length ≤ xattrPageSize) :
    ofObject (Bytes.copyFromSlice object (at' + off) src) at' =
      (ofObject object at').copyFromSlice off src := by
  apply eq_of_bytes_eq
  rw [bytes_copyFromSlice _ hsrc, bytes_ofObject h, bytes_ofObject,
    Bytes.take_drop_copyFromSlice_window h hsrc]
  rw [Bytes.length_copyFromSlice (by omega)]
  exact h

end Store

/-! ## Objects that hold a table -/

namespace ShmInodeMap

variable {n : ℕ}

structure StoredIn (map : ShmInodeMap n) (object : List UInt8) : Prop where
  length_eq : object.length = xattrRegionOffset n + xattrPageSize * n
  header : Header.ofObject object = map.header
  slot : ∀ i : Fin n, Slot.ofObject object (headerSize + slotSize * i) = map.slot i
  page : ∀ i : Fin n,
    XattrPage.ofObject object (xattrRegionOffset n + xattrPageSize * i) = map.xattrPage i

end ShmInodeMap

namespace ShmStore

variable {n : ℕ}

/-- A store into a page stays in the page. -/
def InPage : ShmStore n → Prop
  | page _ off src => off + src.length ≤ xattrPageSize
  | _ => True

/-- The regions of the object in their order. -/
theorem regions (i : Fin n) :
    headerSize + slotSize * i + slotSize ≤ xattrRegionOffset n ∧
      xattrPageSize * i + xattrPageSize ≤ xattrPageSize * n := by
  have hi := i.isLt
  simp only [headerSize, slotSize, xattrRegionOffset, xattrPageSize]
  omega

theorem offset_add_le {s : ShmStore n} (h : s.InPage) :
    s.offset + s.bytes.length ≤ xattrRegionOffset n + xattrPageSize * n := by
  cases s with
  | header w value =>
      have hw := w.offset_le
      simp only [offset, bytes, Bytes.length_toLE, xattrRegionOffset]
      omega
  | slot i w value =>
      have hw := w.offset_le
      have hi := (regions i).1
      simp only [offset, bytes, Bytes.length_toLE]
      omega
  | page i off src =>
      have hi := (regions i).2
      simp only [InPage] at h
      simp only [offset, bytes]
      omega

end ShmStore

namespace ShmInodeMap

variable {n : ℕ} {map : ShmInodeMap n} {object : List UInt8}

/-- The header, the slots and the pages each change only by their own stores. -/
theorem StoredIn.store (h : map.StoredIn object) {s : ShmStore n} (hs : s.InPage) :
    (s.apply map).StoredIn (s.store object) := by
  have hinside := ShmStore.offset_add_le hs
  rw [← h.length_eq] at hinside
  have hlength : (s.store object).length = xattrRegionOffset n + xattrPageSize * n := by
    rw [ShmStore.store, Bytes.length_copyFromSlice hinside, h.length_eq]
  cases s with
  | header w value =>
      have hw := w.offset_le
      refine ⟨hlength, ?_, fun i => ?_, fun i => ?_⟩
      · refine (Header.ofObject_store ?_ w value).trans (by rw [h.header]; rfl)
        rw [h.length_eq, xattrRegionOffset]
        omega
      · refine (Slot.ofObject_store_of_disjoint hinside (.inr ?_)).trans (h.slot i)
        simp only [ShmStore.offset, ShmStore.bytes, Bytes.length_toLE]
        omega
      · refine (XattrPage.ofObject_store_of_disjoint hinside (.inr ?_)).trans (h.page i)
        simp only [ShmStore.offset, ShmStore.bytes, Bytes.length_toLE, xattrRegionOffset]
        omega
  | slot j w value =>
      have hw := w.offset_le
      have hj := (ShmStore.regions j).1
      refine ⟨hlength, ?_, fun i => ?_, fun i => ?_⟩
      · refine (Header.ofObject_store_of_disjoint hinside ?_).trans h.header
        simp only [ShmStore.offset]
        omega
      · by_cases hij : i = j
        · subst hij
          simp only [ShmStore.apply, slot_setSlot_self, ← h.slot]
          refine Slot.ofObject_store ?_ w value
          rw [h.length_eq]
          omega
        · simp only [ShmStore.apply, slot_setSlot_of_ne map hij]
          refine (Slot.ofObject_store_of_disjoint hinside ?_).trans (h.slot i)
          have hne : (i : ℕ) ≠ j := fun heq => hij (Fin.ext heq)
          simp only [ShmStore.offset, ShmStore.bytes, Bytes.length_toLE, headerSize,
            slotSize] at hw ⊢
          omega
      · refine (XattrPage.ofObject_store_of_disjoint hinside (.inr ?_)).trans (h.page i)
        simp only [ShmStore.offset, ShmStore.bytes, Bytes.length_toLE]
        omega
  | page j off src =>
      simp only [ShmStore.InPage] at hs
      refine ⟨hlength, ?_, fun i => ?_, fun i => ?_⟩
      · refine (Header.ofObject_store_of_disjoint hinside ?_).trans h.header
        simp only [ShmStore.offset, xattrRegionOffset]
        omega
      · have hi := (ShmStore.regions i).1
        refine (Slot.ofObject_store_of_disjoint hinside (.inl ?_)).trans (h.slot i)
        simp only [ShmStore.offset]
        omega
      · have hi := (ShmStore.regions i).2
        have hin : xattrRegionOffset n + xattrPageSize * i + xattrPageSize ≤ object.length := by
          rw [h.length_eq]
          omega
        by_cases hij : i = j
        · subst hij
          simp only [ShmStore.apply, xattrPage_setPage_self]
          refine (XattrPage.ofObject_store_window hin hs).trans ?_
          rw [h.page]
        · simp only [ShmStore.apply, xattrPage_setPage_of_ne map hij]
          refine (XattrPage.ofObject_store_of_disjoint hinside ?_).trans (h.page i)
          have hne : (i : ℕ) ≠ j := fun heq => hij (Fin.ext heq)
          simp only [ShmStore.offset, ShmStore.bytes, xattrPageSize] at hs ⊢
          omega

theorem StoredIn.foldl_store (h : map.StoredIn object) {stores : List (ShmStore n)}
    (hstores : ∀ s ∈ stores, s.InPage) :
    (stores.foldl ShmStore.apply map).StoredIn (stores.foldl ShmStore.store object) := by
  induction stores generalizing map object with
  | nil => exact h
  | cons s stores ih =>
      exact ih (h.store (hstores s (by simp))) fun t ht => hstores t (by simp [ht])

end ShmInodeMap

/-! ## The stores that the functions make -/

namespace ShmStore

variable {n : ℕ} {codec : XattrCodec} {s : ShmStore n}

theorem inPage_of_mem_writeXattrsStores {i : Fin n} {xattrs : XattrMap}
    (h : s ∈ writeXattrsStores codec i xattrs) : ∃ off src, s = .page i off src ∧ s.InPage := by
  have hstored : ∀ v, (ShmStore.page i 0 (Bytes.toLE 4 v) : ShmStore n).InPage := by
    intro v
    simp [InPage, xattrPageSize]
  unfold writeXattrsStores at h
  split at h
  · cases List.mem_singleton.mp h
    exact ⟨_, _, rfl, hstored 0⟩
  · split at h
    · rename_i bytes hbytes
      have hlength := of_decide_eq_true (Option.filter_eq_some_iff.mp hbytes).2
      rcases List.mem_cons.mp h with rfl | h
      · exact ⟨_, _, rfl, hstored _⟩
      · cases List.mem_singleton.mp h
        refine ⟨_, _, rfl, ?_⟩
        simp only [xattrPageSize] at hlength
        simp only [InPage, xattrPageSize]
        omega
    · cases List.mem_singleton.mp h
      exact ⟨_, _, rfl, hstored 0⟩

/-- The store of a word of a slot, or one that stays in a page. -/
def IsEntryStore : ShmStore n → Prop
  | header _ _ => False
  | slot _ _ _ => True
  | page i off src => (page i off src).InPage

theorem isEntryStore_of_mem_writeXattrsStores {i : Fin n} {xattrs : XattrMap}
    (h : s ∈ writeXattrsStores codec i xattrs) : s.IsEntryStore := by
  obtain ⟨off, src, rfl, hpage⟩ := inPage_of_mem_writeXattrsStores h
  exact hpage

theorem isEntryStore_of_mem_insertStores {i : Fin n} {key : InodeKey} {uid gid mode : UInt32}
    {rdev : UInt64} {xattrs : XattrMap}
    (h : s ∈ insertStores codec i key uid gid mode rdev xattrs) : s.IsEntryStore := by
  rcases List.mem_append.mp h with h | h
  · exact isEntryStore_of_mem_writeXattrsStores h
  · simp only [List.mem_cons, List.not_mem_nil, or_false] at h
    rcases h with rfl | rfl | rfl | rfl | rfl | rfl | rfl <;> trivial

theorem isEntryStore_of_mem_storesOf {op : StoreOp} {outcome : Probe n}
    (h : s ∈ ShmInodeMap.storesOf codec op outcome) : s.IsEntryStore := by
  cases op with
  | getInode key => cases h
  | upsertChown key uid gid du dg =>
      cases outcome with
      | found i =>
          rcases List.mem_append.mp h with h | h <;> split at h
          · cases List.mem_singleton.mp h
            trivial
          · cases h
          · cases List.mem_singleton.mp h
            trivial
          · cases h
      | vacant i => exact isEntryStore_of_mem_insertStores h
      | full => cases h
  | upsertInode key inode =>
      cases outcome with
      | found i =>
          rcases List.mem_append.mp h with h | h
          · simp only [List.mem_cons, List.not_mem_nil, or_false] at h
            rcases h with rfl | rfl | rfl | rfl <;> trivial
          · exact isEntryStore_of_mem_writeXattrsStores h
      | vacant i => exact isEntryStore_of_mem_insertStores h
      | full => cases h
  | removeInode key =>
      cases outcome with
      | found i =>
          rcases List.mem_append.mp h with h | h
          · exact isEntryStore_of_mem_writeXattrsStores h
          · cases List.mem_singleton.mp h
            trivial
      | vacant i => cases h
      | full => cases h

/-- A store that some function of the map makes, whatever its probe returned. -/
inductive Made (codec : XattrCodec) : ShmStore n → Prop where
  | ofOp {s : ShmStore n} {op : StoreOp} {outcome : Probe n}
      (h : s ∈ ShmInodeMap.storesOf codec op outcome) : Made codec s
  | ofSetCurrent {s : ShmStore n} {uid gid : UInt32} (h : s ∈ shmSetCurrentStores uid gid) :
      Made codec s

theorem Made.inPage (h : s.Made codec) : s.InPage := by
  cases h with
  | ofOp h =>
      have hentry := isEntryStore_of_mem_storesOf h
      cases s with
      | header w value => trivial
      | slot i w value => trivial
      | page i off src => exact hentry
  | ofSetCurrent h =>
      simp only [shmSetCurrentStores, List.mem_cons, List.not_mem_nil, or_false] at h
      rcases h with rfl | rfl <;> trivial

end ShmStore

namespace ShmInodeMap

variable {n : ℕ}

/-- What `from_fd` checks and what it takes from the header. -/
structure Identified (map : ShmInodeMap n) : Prop where
  magic : map.header.magic = shmMagic
  version : map.header.version = shmVersion
  slotCount : map.header.slotCount.toNat = n

theorem Identified.apply {codec : XattrCodec} {map : ShmInodeMap n} (h : map.Identified)
    {s : ShmStore n} (hs : s.Made codec) :
    (s.apply map).Identified ∧ (s.apply map).len = map.len := by
  cases hs with
  | ofOp hs =>
      have hentry := ShmStore.isEntryStore_of_mem_storesOf hs
      cases s with
      | header w value => cases hentry
      | slot i w value => exact ⟨⟨h.magic, h.version, h.slotCount⟩, rfl⟩
      | page i off src => exact ⟨⟨h.magic, h.version, h.slotCount⟩, rfl⟩
  | ofSetCurrent hs =>
      simp only [shmSetCurrentStores, List.mem_cons, List.not_mem_nil, or_false] at hs
      rcases hs with rfl | rfl <;> exact ⟨⟨h.magic, h.version, h.slotCount⟩, rfl⟩

theorem Identified.foldl_apply {codec : XattrCodec} {map : ShmInodeMap n} (h : map.Identified)
    {stores : List (ShmStore n)} (hstores : ∀ s ∈ stores, s.Made codec) :
    (stores.foldl ShmStore.apply map).Identified ∧
      (stores.foldl ShmStore.apply map).len = map.len := by
  induction stores generalizing map with
  | nil => exact ⟨h, rfl⟩
  | cons s stores ih =>
      obtain ⟨hnext, hlen⟩ := h.apply (hstores s (by simp))
      obtain ⟨hlast, hlen'⟩ := ih hnext fun t ht => hstores t (by simp [ht])
      exact ⟨hlast, hlen'.trans hlen⟩

/-! ## Attaching -/

/-- Mapping an object that holds a table gives this table. -/
theorem StoredIn.ofObject {map : ShmInodeMap n} {object : List UInt8} (h : map.StoredIn object)
    (hid : map.Identified) :
    (⟨_, InheritedMap.ofObject map.len object⟩ : Σ n, InheritedMap n) =
      ⟨n, ⟨object.length, map⟩⟩ := by
  have hcount : (Header.ofObject object).slotCount.toNat = n := by
    rw [h.header, hid.slotCount]
  subst hcount
  have hslot := funext h.slot
  have hpage := funext h.page
  obtain ⟨len, header, slot, page⟩ := map
  have hheader : Header.ofObject object = header := h.header
  simp only at hslot hpage
  subst hslot hpage
  simp only [InheritedMap.ofObject, hheader]

/-! ## Fresh objects -/

/-- A table of which every byte is zero. -/
def zeroed (n len : ℕ) : ShmInodeMap n where
  len := len
  header := ⟨0, 0, 0, 0, 0⟩
  slot := fun _ => ⟨0, 0, 0, 0, 0, 0, 0⟩
  xattrPage := fun _ => XattrPage.zeroed

theorem ofLE_replicate_zero (k : ℕ) : Bytes.ofLE (List.replicate k 0) = 0 := by
  induction k with
  | zero => rfl
  | succ k ih => simp [List.replicate_succ, Bytes.ofLE, ih]

theorem fieldAt_replicate_zero (len off width : ℕ) :
    fieldAt (List.replicate len 0) off width = 0 := by
  rw [fieldAt, List.drop_replicate, List.take_replicate, ofLE_replicate_zero]

theorem storedIn_zeroed {n len : ℕ} (hlen : len = xattrRegionOffset n + xattrPageSize * n) :
    (zeroed n len).StoredIn (List.replicate len 0) := by
  refine ⟨by rw [List.length_replicate, hlen], ?_, fun i => ?_, fun i => ?_⟩
  · refine Header.eq_of_word_eq fun w => ?_
    rw [Header.word_ofObject, fieldAt_replicate_zero]
    cases w <;> rfl
  · refine Slot.eq_of_word_eq fun w => ?_
    rw [Slot.word_ofObject, fieldAt_replicate_zero]
    cases w <;> rfl
  · have hi := (ShmStore.regions i).2
    apply XattrPage.eq_of_bytes_eq
    rw [XattrPage.bytes_ofObject, List.drop_replicate, List.take_replicate]
    · rw [Nat.min_eq_left (by omega)]
      rfl
    · rw [List.length_replicate]
      omega

theorem foldl_initHeaderStores (n len : ℕ) (uid gid : UInt32) :
    (initHeaderStores n uid gid).foldl ShmStore.apply (zeroed n len) =
      initHeader n len uid gid := by
  have hslots : ∀ (is : List (Fin n)) (map : ShmInodeMap n),
      (∀ i, map.slot i = ⟨slotEmpty, 0, 0, 0, 0, 0, 0⟩) →
      (is.map fun i => ShmStore.slot i .occupied slotEmpty.toUInt64).foldl ShmStore.apply map =
        map := by
    intro is map hmap
    induction is with
    | nil => rfl
    | cons i is ih =>
        have hsame : ShmStore.apply map (.slot i .occupied slotEmpty.toUInt64) = map := by
          have hset : (map.slot i).set .occupied slotEmpty.toUInt64 = map.slot i := by
            rw [hmap]
            rfl
          simp only [ShmStore.apply, hset, setSlot, Function.update_eq_self]
        rw [List.map_cons, List.foldl_cons, hsame, ih]
  rw [initHeaderStores, List.foldl_append]
  exact hslots _ _ fun _ => rfl

theorem inPage_of_mem_initHeaderStores {n : ℕ} {uid gid : UInt32} {s : ShmStore n}
    (h : s ∈ initHeaderStores n uid gid) : s.InPage := by
  rcases List.mem_append.mp h with h | h
  · simp only [List.mem_cons, List.not_mem_nil, or_false] at h
    rcases h with rfl | rfl | rfl | rfl | rfl <;> trivial
  · obtain ⟨i, -, rfl⟩ := List.mem_map.mp h
    trivial

theorem storedIn_createdObject {n len : ℕ} (hlen : len = xattrRegionOffset n + xattrPageSize * n)
    (uid gid : UInt32) :
    (initHeader n len uid gid).StoredIn (createdObject n len uid gid) := by
  rw [← foldl_initHeaderStores]
  exact (storedIn_zeroed hlen).foldl_store fun _ => inPage_of_mem_initHeaderStores

end ShmInodeMap

/-! ## Lengths in decimal -/

/-- A number that was printed is read back. -/
theorem parseUsize_toString {v : ℕ} (h : v < 2 ^ 64) : parseUsize (toString v) = some v := by
  have hdigits : ∀ c ∈ (toString v).toList, c.isDigit = true := fun c hc =>
    Decimal.isDigit_of_mem_repr (m := v) hc
  have hread : (toString v).toList.foldl (fun v digit => 10 * v + (digit.toNat - 48)) 0 = v :=
    Decimal.foldl_repr v
  have hall : (toString v).toList.all Char.isDigit = true := List.all_eq_true.mpr hdigits
  have hempty : (toString v).toList.isEmpty = false :=
    List.isEmpty_eq_false_iff.mpr (Decimal.repr_ne_nil v)
  unfold parseUsize
  generalize (toString v).toList = digits at *
  split
  · -- No digit is a plus sign.
    exact absurd (hdigits '+' List.mem_cons_self) (by decide)
  · simp only [hempty, hall, hread, checkedUsize, h, Bool.false_eq_true, if_false, if_true]

/-! ## Processes that attach -/

theorem tableSlotCount_lt (requested : UInt32) : tableSlotCount requested < 2 ^ 32 := by
  unfold tableSlotCount nextPowerOfTwo
  omega

namespace ShmInodeMap

variable {checks : Bool} {os : ShmOs} {slotCount uid gid : UInt32}
  {map : ShmInodeMap (tableSlotCount slotCount)}

theorem identified_of_create (h : create checks os slotCount uid gid = .ok map) :
    map.Identified := by
  rw [eq_initHeader_of_create_eq_ok h]
  exact ⟨rfl, rfl, UInt32.toNat_ofNat_of_lt' (tableSlotCount_lt slotCount)⟩

theorem len_of_create (h : create checks os slotCount uid gid = .ok map) :
    map.len = xattrRegionOffset (tableSlotCount slotCount) +
      xattrPageSize * tableSlotCount slotCount := by
  rw [eq_initHeader_of_create_eq_ok h]
  rfl

theorem storedIn_of_create (h : create checks os slotCount uid gid = .ok map) :
    map.StoredIn (createdObject (tableSlotCount slotCount) map.len uid gid) := by
  have hstored := storedIn_createdObject (len_of_create h) uid gid
  rw [len_of_create h] at hstored ⊢
  rw [eq_initHeader_of_create_eq_ok h]
  exact hstored

/-- With the length that was printed, or one that is not read as a number. -/
theorem StoredIn.fromFd {n : ℕ} {map : ShmInodeMap n} {object : List UInt8}
    (h : map.StoredIn object) (hid : map.Identified)
    (hlen : map.len = xattrRegionOffset n + xattrPageSize * n) (hfits : map.len < 2 ^ 64)
    {shmLen : Option String}
    (hshmLen : shmLen = some (toString map.len) ∨ shmLen.bind parseUsize = none) :
    (⟨_, InheritedMap.fromFd ⟨true, true, true⟩ shmLen object⟩ : Σ n, FromFdOutcome n) =
      ⟨n, .ok ⟨map.len, map⟩⟩ := by
  have hobject : object.length = map.len := h.length_eq.trans hlen.symm
  have hheader : headerSize ≤ map.len := by
    rw [hlen, xattrRegionOffset]
    omega
  have hnonempty : object.isEmpty = false := by
    cases object with
    | nil =>
        rw [List.length_nil] at hobject
        rw [← hobject] at hheader
        exact absurd hheader (by decide)
    | cons byte bytes => rfl
  have hmapped : InheritedMap.fromFd ⟨true, true, true⟩ shmLen object =
      .ok (InheritedMap.ofObject map.len object) := by
    have haccepts : InheritedMap.fromFd.mapped ⟨true, true, true⟩ object map.len =
        .ok (InheritedMap.ofObject map.len object) := by
      simp [InheritedMap.fromFd.mapped, Nat.not_lt.mpr hheader, hnonempty, h.header, hid.magic,
        hid.version]
    rcases hshmLen with rfl | hnone
    · have hread : ((some (toString map.len)).bind parseUsize).filter
          (fun len => decide (headerSize ≤ len)) = some map.len := by
        rw [Option.bind_some, parseUsize_toString hfits]
        simp [hheader]
      simp only [InheritedMap.fromFd, hread, haccepts, Bool.not_true, Bool.false_eq_true, if_false]
    · simp [InheritedMap.fromFd, hnone, hobject, haccepts]
  have hmap := h.ofObject hid
  rw [hobject] at hmap
  rw [hmapped]
  exact congrArg (fun m : Σ n, InheritedMap n => (⟨m.1, .ok m.2⟩ : Σ n, FromFdOutcome n)) hmap

/-! ## Sequences of operations -/

/-- The operations that store into the map. -/
inductive MapOp where
  | setCurrent (uid gid : UInt32)
  | entry (op : StoreOp)

def MapOp.run {n : ℕ} [NeZero n] (codec : XattrCodec) (map : ShmInodeMap n) :
    MapOp → ShmInodeMap n
  | setCurrent uid gid => map.setCurrent uid gid
  | entry op => (map.call codec op).2

/-- The stores of one operation, in its order. -/
def MapOp.stores {n : ℕ} [NeZero n] (codec : XattrCodec) (map : ShmInodeMap n) :
    MapOp → List (ShmStore n)
  | setCurrent uid gid => shmSetCurrentStores uid gid
  | entry op => storesOf codec op (map.probe op.key)

/-- The stores of operations that come one after another. -/
def sequenceStores {n : ℕ} [NeZero n] (codec : XattrCodec) (map : ShmInodeMap n) :
    List MapOp → List (ShmStore n)
  | [] => []
  | op :: ops => op.stores codec map ++ sequenceStores codec (op.run codec map) ops

section Sequences

variable {n : ℕ} [NeZero n] (codec : XattrCodec) (map : ShmInodeMap n)

theorem foldl_stores (op : MapOp) :
    (op.stores codec map).foldl ShmStore.apply map = op.run codec map := by
  cases op with
  | setCurrent uid gid => rfl
  | entry op => exact (foldl_storesOf codec map op _).trans (call_snd_eq_write codec map op).symm

theorem made_of_mem_stores (op : MapOp) : ∀ s ∈ op.stores codec map, s.Made codec := by
  intro s hs
  cases op with
  | setCurrent uid gid => exact .ofSetCurrent hs
  | entry op => exact .ofOp hs

theorem made_of_mem_sequenceStores (ops : List MapOp) :
    ∀ s ∈ sequenceStores codec map ops, s.Made codec := by
  induction ops generalizing map with
  | nil => exact fun _ hs => absurd hs List.not_mem_nil
  | cons op ops ih =>
      intro s hs
      rcases List.mem_append.mp hs with hs | hs
      · exact made_of_mem_stores codec map op s hs
      · exact ih _ s hs

theorem foldl_sequenceStores (ops : List MapOp) :
    (sequenceStores codec map ops).foldl ShmStore.apply map = ops.foldl (MapOp.run codec) map := by
  induction ops generalizing map with
  | nil => rfl
  | cons op ops ih =>
      rw [sequenceStores, List.foldl_append, foldl_stores, ih]
      rfl

theorem sequenceStores_append (ops ops' : List MapOp) :
    sequenceStores codec map (ops ++ ops') =
      sequenceStores codec map ops ++
        sequenceStores codec (ops.foldl (MapOp.run codec) map) ops' := by
  induction ops generalizing map with
  | nil => rfl
  | cons op ops ih =>
      rw [List.cons_append, sequenceStores, sequenceStores, ih, List.append_assoc]
      rfl

/-- The stores of the first operations come first. -/
theorem isPrefix_sequenceStores_take (ops : List MapOp) (k : ℕ) :
    sequenceStores codec map (ops.take k) <+: sequenceStores codec map ops := by
  have happend := sequenceStores_append codec map (ops.take k) (ops.drop k)
  rw [List.take_append_drop] at happend
  exact ⟨_, happend.symm⟩

end Sequences

/-- A process that attaches to the object of a created map gets the table as it is at this
moment, whatever stores the processes of the session have made and in whatever order: the
bytes hold what the table holds. The stores of operations that come one after another are such
stores, and they lead to the table after each of the operations. -/
theorem attach_after_stores (codec : XattrCodec)
    (hcreate : create checks os slotCount uid gid = .ok map) :
    let object := createdObject (tableSlotCount slotCount) map.len uid gid
    (∀ (stores : List (ShmStore (tableSlotCount slotCount))) (shmLen : Option String),
      (∀ s ∈ stores, s.Made codec) →
      shmLen = some (toString map.len) ∨ shmLen.bind parseUsize = none →
      (⟨_, InheritedMap.fromFd ⟨true, true, true⟩ shmLen
          (stores.foldl ShmStore.store object)⟩ : Σ n, FromFdOutcome n) =
        ⟨_, .ok ⟨map.len, stores.foldl ShmStore.apply map⟩⟩) ∧
    ∀ ops : List MapOp, (∀ s ∈ sequenceStores codec map ops, s.Made codec) ∧
      ∀ k, sequenceStores codec map (ops.take k) <+: sequenceStores codec map ops ∧
        (sequenceStores codec map (ops.take k)).foldl ShmStore.apply map =
          (ops.take k).foldl (MapOp.run codec) map := by
  refine ⟨fun stores shmLen hmade hshmLen => ?_, fun ops =>
    ⟨made_of_mem_sequenceStores codec map ops, fun k =>
      ⟨isPrefix_sequenceStores_take codec map ops k, foldl_sequenceStores codec map _⟩⟩⟩
  obtain ⟨hid, hlen⟩ := (identified_of_create hcreate).foldl_apply hmade
  have hstored := (storedIn_of_create hcreate).foldl_store fun s hs => (hmade s hs).inPage
  have hfits : map.len < 2 ^ 64 := by
    have hn := tableSlotCount_lt slotCount
    rw [len_of_create hcreate]
    simp only [xattrRegionOffset, headerSize, slotSize, xattrPageSize]
    omega
  rw [← hlen] at hshmLen
  have hattach := hstored.fromFd hid (by rw [hlen, len_of_create hcreate]) (by rwa [hlen]) hshmLen
  rwa [hlen] at hattach

/-- A map of 1024 slots, in the middle of an insertion after the ids have been changed. -/
theorem attach_after_stores_of_insertion :
    let map := initHeader (tableSlotCount 256)
      (headerSize + slotSize * tableSlotCount 256 + xattrPageSize * tableSlotCount 256) 0 0
    let stores := sequenceStores .wincode map
      [.setCurrent 5 5, .entry (.upsertChown (1, 2) 200 200 5 5)]
    stores.length = 10 ∧
      ∀ k, (⟨_, InheritedMap.fromFd ⟨true, true, true⟩ (some (toString map.len))
          ((stores.take k).foldl ShmStore.store
            (createdObject (tableSlotCount 256) map.len 0 0))⟩ : Σ n, FromFdOutcome n) =
        ⟨_, .ok ⟨map.len, (stores.take k).foldl ShmStore.apply map⟩⟩ := by
  intro map stores
  obtain ⟨hattach, hops⟩ := attach_after_stores .wincode (create_eq_ok 256 0 0)
  refine ⟨by decide +kernel, fun k => hattach (stores.take k) _ (fun s hs => ?_) (Or.inl rfl)⟩
  exact (hops _).1 s (List.mem_of_mem_take hs)

end ShmInodeMap

end Pseudoroot
