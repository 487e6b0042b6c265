import Pseudoroot.Verification.ShmMap.Inherited

/-! # Objects that are accepted and safe to use

`from_fd` checks the magic number and the version of an object. The slot count that it
reads is not compared with anything. -/

namespace Pseudoroot

namespace InheritedMap

variable {n : ℕ} {map : InheritedMap n} {codec : XattrCodec}

/-- Hashing divides by a positive number, and no sequence of operations touches a slot or a
page that is not wholly inside the object and the mapping. -/
def SafeToUse (codec : XattrCodec) (map : InheritedMap n) : Prop :=
  0 < n ∧ ∀ ops, ∃ map', map.after codec ops = .ok map'

/-- The slots are inside, and so is the page of every slot that is empty, live, or a tombstone
in a table with an empty slot. -/
structure Fits (map : InheritedMap n) : Prop where
  positive : 0 < n
  slots : map.SlotsFit
  pages : ∀ i, map.table.Touchable i → map.PageFits i

/-! ## Tables that fit -/

section Fits

variable [NeZero n]

theorem Fits.call_eq (codec : XattrCodec) (h : map.Fits) (op : StoreOp) :
    map.call codec op = .ok ((map.table.call codec op).1,
      { map with table := (map.table.call codec op).2 }) :=
  h.slots.call_eq codec op fun i hi => h.pages i (ShmInodeMap.touchable_of_touchedPage hi)

theorem Fits.call (codec : XattrCodec) (h : map.Fits) (op : StoreOp) :
    Fits { map with table := (map.table.call codec op).2 } := by
  have hlen := map.table.len_call codec op
  refine ⟨h.positive, h.slots.of_len_eq hlen, fun i hi => ?_⟩
  simpa only [PageFits, hlen] using h.pages i (hi.of_call codec)

/-- A run on a map that fits is the run on its table. -/
theorem Fits.after_eq (codec : XattrCodec) (h : map.Fits) (ops : List StoreOp) :
    map.after codec ops = .ok { map with table := map.table.after codec ops } := by
  induction ops generalizing map with
  | nil => rfl
  | cons op ops ih =>
      rw [after, h.call_eq, ok_bind]
      exact ih (h.call codec op)

/-- The maps that `create` returns fit. -/
theorem fits_of_create {checks : Bool} {os : ShmOs} {slotCount uid gid : UInt32}
    {map : ShmInodeMap (tableSlotCount slotCount)}
    (h : ShmInodeMap.create checks os slotCount uid gid = .ok map) :
    (InheritedMap.mk map.len map).Fits := by
  rw [eq_initHeader_of_create_eq_ok h]
  refine ⟨Nat.pos_of_neZero _, ?_, fun i _ => ?_⟩
  · simp only [SlotsFit, ShmInodeMap.initHeader, xattrRegionOffset]
    omega
  · have hi : xattrPageSize * (i + 1) ≤ xattrPageSize * tableSlotCount slotCount :=
      Nat.mul_le_mul_left _ i.isLt
    simp only [PageFits, ShmInodeMap.initHeader, xattrRegionOffset]
    omega

end Fits

/-! ## Tables that are safe -/

section Safe

variable (hsafe : map.SafeToUse codec)

include hsafe

theorem SafeToUse.exists_call (op : StoreOp) : ∃ r, map.call codec op = .ok r := by
  obtain ⟨map', hafter⟩ := hsafe.2 [op]
  cases hcall : map.call codec op with
  | ok r => exact ⟨r, rfl⟩
  | error fault =>
      simp only [after, hcall, error_bind] at hafter
      cases hafter

theorem SafeToUse.of_call {op : StoreOp} {reply : StoreReply} {map' : InheritedMap n}
    (hcall : map.call codec op = .ok (reply, map')) : map'.SafeToUse codec := by
  refine ⟨hsafe.1, fun ops => ?_⟩
  simpa only [after, hcall, ok_bind] using hsafe.2 (op :: ops)

variable [NeZero n]

omit [NeZero n] hsafe in
theorem probeLoop_eq_error {key : InodeKey} {fuel : ℕ} {idx : Fin n} {reuse : Option (Fin n)}
    {fault : Fault} (hfuel : 0 < fuel) (hslot : map.slot idx = .error fault) :
    map.probeLoop key fuel idx reuse = .error fault := by
  cases fuel with
  | zero => cases hfuel
  | succ fuel => rw [probeLoop, hslot, error_bind]

/-- Some key hashes to the last slot. -/
theorem SafeToUse.slotsFit (hn : n ≤ 2 ^ 64) : map.SlotsFit := by
  have hpos := hsafe.1
  obtain ⟨dev, hdev⟩ := ShmInodeMap.exists_dev_hash_eq hn ⟨n - 1, Nat.sub_one_lt_of_lt hpos⟩ 0
  by_contra hnot
  have hin : ¬ (headerSize + slotSize * (n - 1) + slotSize ≤ map.size ∧
      headerSize + slotSize * (n - 1) + slotSize ≤ map.table.len) := by
    simp only [SlotsFit, xattrRegionOffset, headerSize, slotSize] at hnot ⊢
    omega
  have hslot : map.slot ⟨n - 1, Nat.sub_one_lt_of_lt hpos⟩ = .error .outside := by
    rw [slot, access, if_neg hin]
    rfl
  have hprobe : map.probe (dev, 0) = .error .outside := by
    rw [probe, hash_eq, ok_bind, hdev, probeLoop_eq_error hpos hslot]
  obtain ⟨r, hr⟩ := hsafe.exists_call (.getInode (dev, 0))
  rw [call, getInode, hprobe] at hr
  cases hr

/-- Every page that an operation touches is inside. -/
theorem SafeToUse.pageFits (hslots : map.SlotsFit) (op : StoreOp) {i : Fin n}
    (htouch : map.table.touchedPage op = some i) : map.PageFits i := by
  by_contra hi
  obtain ⟨r, hr⟩ := hsafe.exists_call op
  rw [hslots.call_eq_outside codec htouch hi] at hr
  cases hr

theorem SafeToUse.step (hslots : map.SlotsFit) (op : StoreOp) :
    SafeToUse codec { map with table := (map.table.call codec op).2 } :=
  hsafe.of_call (hslots.call_eq codec op fun _ hi => hsafe.pageFits hslots op hi)

end Safe

/-- The slots at which a search for `key` can end without being at its last entry: those that
are empty and those that hold the key. -/
def endsFor (table : ShmInodeMap n) (key : InodeKey) : Finset (Fin n) :=
  Finset.univ.filter fun j =>
    (table.slot j).occupied = slotEmpty ∨ (table.slot j).LiveFor key

theorem mem_endsFor {table : ShmInodeMap n} {key : InodeKey} {j : Fin n} :
    j ∈ endsFor table key ↔ (table.slot j).occupied = slotEmpty ∨ (table.slot j).LiveFor key := by
  simp [endsFor]

/-- Overwriting one of them with another entry or a tombstone leaves one less. -/
theorem card_endsFor_lt {table table' : ShmInodeMap n} {key : InodeKey} {j : Fin n} {s : Slot}
    (hj : j ∈ endsFor table key) (hslot : table'.slot = Function.update table.slot j s)
    (hempty : s.occupied ≠ slotEmpty) (hlive : ¬ s.LiveFor key) :
    (endsFor table' key).card < (endsFor table key).card := by
  have hnot : j ∉ endsFor table' key := by
    rw [mem_endsFor, hslot, Function.update_self]
    exact not_or.mpr ⟨hempty, hlive⟩
  refine Finset.card_lt_card (Finset.ssubset_iff_subset_ne.mpr ⟨fun i hi => ?_, ?_⟩)
  · have hij : i ≠ j := by
      rintro rfl
      exact hnot hi
    rw [mem_endsFor, hslot, Function.update_of_ne hij] at hi
    exact mem_endsFor.mpr hi
  · intro heq
    rw [heq] at hnot
    exact hnot hj

section Pages

variable [NeZero n] (hn : n < 2 ^ 64)

include hn

/-- The page of every entry comes to be touched: remove the entries of its key that a search
finds first, and bind other keys in the empty slots that end the search. -/
theorem SafeToUse.pageFits_of_live (hsafe : map.SafeToUse codec) (hslots : map.SlotsFit)
    (key : InodeKey) {i : Fin n} (hi : (map.table.slot i).LiveFor key) : map.PageFits i := by
  induction hm : (endsFor map.table key).card using Nat.strong_induction_on generalizing map with
  | h m ih =>
      have hnext : ∀ op j s, map.table.writtenSlot op (map.table.probe op.key) = some (j, s) →
          j ∈ endsFor map.table key → i ≠ j → s.occupied ≠ slotEmpty → ¬ s.LiveFor key →
          map.PageFits i := by
        intro op j s hwritten hj hij hempty hlive
        have hlen := map.table.len_call codec op
        have hslot := map.table.slot_call codec op
        rw [hwritten, Option.elim_some] at hslot
        have hlt := card_endsFor_lt hj hslot hempty hlive
        have hfit := ih _ (hm ▸ hlt) (hsafe.step hslots op) (hslots.of_len_eq hlen)
          (by simpa only [hslot, Function.update_of_ne hij] using hi) rfl
        simpa only [PageFits, hlen] using hfit
      cases hp : map.table.probe key with
      | found j =>
          by_cases hij : i = j
          · subst hij
            exact hsafe.pageFits hslots (.getInode key)
              (by simp [ShmInodeMap.touchedPage, hp])
          · have hj := mem_endsFor.mpr (.inr (ShmInodeMap.live_of_probe_eq_found hp))
            refine hnext (.removeInode key) j { map.table.slot j with occupied := slotTombstone } ?_
              hj hij ?_ ?_
            · simp only [StoreOp.key, hp, ShmInodeMap.writtenSlot]
            · simp [slotEmpty, slotTombstone]
            · simp [Slot.LiveFor, slotLive, slotTombstone]
      | vacant j =>
          obtain ⟨-, e, he⟩ := ShmInodeMap.free_of_probe_eq_vacant hp
          obtain ⟨other, rfl, hfresh⟩ := ShmInodeMap.exists_fresh_key hn map.table e
          have hvacant := ShmInodeMap.probe_of_empty he
          have hie : i ≠ ShmInodeMap.hash other := by
            intro hie
            have hlive := hi.1
            rw [hie, he] at hlive
            exact absurd hlive (by decide)
          refine hnext (.upsertInode other (FakeInode.new 0 0)) _
            ⟨slotLive, other.1, other.2, 0, 0, 0, 0⟩ ?_ (mem_endsFor.mpr (.inl he)) hie ?_ ?_
          · simp only [StoreOp.key, hvacant, ShmInodeMap.writtenSlot]
            rfl
          · simp [slotEmpty, slotLive]
          · rintro ⟨-, hdev, hino⟩
            exact hfresh i ⟨hi.1, hi.2.1.trans hdev.symm, hi.2.2.trans hino.symm⟩
      | full => exact absurd hi (ShmInodeMap.not_live_of_probe_eq_full hp i)

theorem SafeToUse.pageFits_of_touchable (hsafe : map.SafeToUse codec) (hslots : map.SlotsFit)
    {i : Fin n} (hi : map.table.Touchable i) : map.PageFits i := by
  obtain ⟨key, rfl, hfresh⟩ := ShmInodeMap.exists_fresh_key hn map.table i
  have hvacant : map.table.probe key = .vacant (ShmInodeMap.hash key) →
      map.PageFits (ShmInodeMap.hash key) := fun hp =>
    hsafe.pageFits hslots (.upsertChown key 0 0 0 0) (by simp [ShmInodeMap.touchedPage, hp])
  rcases hi with hempty | hlive | ⟨htomb, hroom⟩
  · exact hvacant (ShmInodeMap.probe_of_empty hempty)
  · exact hsafe.pageFits_of_live hn hslots (_, _) ⟨hlive, rfl, rfl⟩
  · exact hvacant (ShmInodeMap.probe_of_tombstone htomb hfresh hroom)

end Pages

theorem safeToUse_iff_fits (codec : XattrCodec) (hn : n < 2 ^ 64) :
    map.SafeToUse codec ↔ map.Fits := by
  constructor
  · intro hsafe
    have : NeZero n := ⟨hsafe.1.ne'⟩
    have hslots := hsafe.slotsFit hn.le
    exact ⟨hsafe.1, hslots, fun i hi => hsafe.pageFits_of_touchable hn hslots hi⟩
  · intro hfits
    have : NeZero n := ⟨hfits.positive.ne'⟩
    exact ⟨hfits.positive, fun ops => ⟨_, hfits.after_eq codec ops⟩⟩

end InheritedMap

/-! ## Main results -/

/-- An accepted object is safe to use, and any other is refused with an error. -/
def FromFdOutcome.SafeOrRefused {n : ℕ} (codec : XattrCodec) : FromFdOutcome n → Prop
  | .faulted => False
  | .err _ => True
  | .ok map => map.SafeToUse codec

namespace InheritedMap

/-- A length from the environment that is at least that of the header. -/
def givenLen (shmLen : Option String) : Option ℕ :=
  (shmLen.bind parseUsize).filter fun len => headerSize ≤ len

def HeaderMismatch (object : List UInt8) : Prop :=
  (Header.ofObject object).magic ≠ shmMagic ∨ (Header.ofObject object).version ≠ shmVersion

/-- A system call fails, the object is too small and the environment gives no other length, or
the object begins with another magic number or version. -/
def Refused (os : FromFdOs) (shmLen : Option String) (object : List UInt8) : Prop :=
  os.dup = false ∨
    givenLen shmLen = none ∧ (os.fstat = false ∨ object.length < headerSize) ∨
    os.mmap = false ∨ object ≠ [] ∧ HeaderMismatch object

theorem Fits.object_ne_nil {len : ℕ} {object : List UInt8} (h : (ofObject len object).Fits) :
    object ≠ [] := by
  rintro rfl
  have hsize := h.slots.1
  simp [ofObject, xattrRegionOffset, headerSize] at hsize

theorem mapped_safe_iff (codec : XattrCodec) (os : FromFdOs) (object : List UInt8) {len : ℕ}
    (hlen : headerSize ≤ len) :
    (fromFd.mapped os object len).SafeOrRefused codec ↔
      os.mmap = false ∨ object ≠ [] ∧ HeaderMismatch object ∨ (ofObject len object).Fits := by
  have hn : (Header.ofObject object).slotCount.toNat < 2 ^ 64 :=
    (Header.ofObject object).slotCount.toNat_lt.trans (by decide)
  rw [← safeToUse_iff_fits codec hn, fromFd.mapped, if_neg (Nat.not_lt.mpr hlen)]
  cases hmmap : os.mmap with
  | false => simp [FromFdOutcome.SafeOrRefused]
  | true =>
      cases object with
      | nil =>
          have hunsafe : ¬ (ofObject len []).SafeToUse codec := by
            rw [safeToUse_iff_fits codec hn]
            exact fun h => h.object_ne_nil rfl
          simp [FromFdOutcome.SafeOrRefused, hunsafe]
      | cons byte rest =>
          by_cases hmatch : HeaderMismatch (byte :: rest)
          · have hbad := hmatch
            unfold HeaderMismatch at hbad
            simp [FromFdOutcome.SafeOrRefused, hmatch, hbad]
          · have hgood := hmatch
            unfold HeaderMismatch at hgood
            simp [FromFdOutcome.SafeOrRefused, hmatch, hgood]

/-- For every object and environment, `from_fd` refuses the object or returns a map that is safe
to use, exactly when it meets one of its reasons for an error or the slot count in the header is
positive and the slots and the pages that come into use lie inside the object and the length. -/
theorem fromFd_safe_iff (codec : XattrCodec) (os : FromFdOs) (shmLen : Option String)
    (object : List UInt8) :
    (fromFd os shmLen object).SafeOrRefused codec ↔
      Refused os shmLen object ∨
        (ofObject ((givenLen shmLen).getD object.length) object).Fits := by
  simp only [fromFd, Refused, givenLen]
  cases hdup : os.dup with
  | false => simp [FromFdOutcome.SafeOrRefused]
  | true =>
      cases hgiven : (shmLen.bind parseUsize).filter fun len => headerSize ≤ len with
      | some len =>
          have hlen : headerSize ≤ len := by
            simpa using (Option.filter_eq_some_iff.mp hgiven).2
          simpa [or_assoc] using mapped_safe_iff codec os object hlen
      | none =>
          cases hfstat : os.fstat with
          | false => simp [FromFdOutcome.SafeOrRefused]
          | true =>
              by_cases hshort : object.length < headerSize
              · simp [FromFdOutcome.SafeOrRefused, fromFd.mapped, hshort]
              · simpa [hshort, or_assoc] using
                  mapped_safe_iff codec os object (Nat.not_lt.mp hshort)

/-- An object of 64 bytes, with the magic number, the version and a slot count of zero. -/
def headerOnly : List UInt8 :=
  Bytes.toLE 4 shmMagic.toNat ++ Bytes.toLE 4 shmVersion.toNat ++ List.replicate 56 0

/-- It is accepted, and the first lookup divides by zero. -/
theorem zero_slot_count_accepted :
    ¬ (fromFd ⟨true, true, true⟩ none headerOnly).SafeOrRefused XattrCodec.wincode ∧
      fromFd ⟨true, true, true⟩ none headerOnly = .ok (ofObject 64 headerOnly) ∧
      (ofObject 64 headerOnly).getInode XattrCodec.wincode (1, 2) = .error .divideByZero := by
  have hok : fromFd ⟨true, true, true⟩ none headerOnly = .ok (ofObject 64 headerOnly) := rfl
  refine ⟨?_, hok, rfl⟩
  rw [hok]
  rintro ⟨hpos, -⟩
  exact absurd hpos (by decide)

end InheritedMap

end Pseudoroot
