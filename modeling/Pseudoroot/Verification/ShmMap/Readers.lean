import Pseudoroot.Library.Calls.Rely
import Pseudoroot.Model.ShmAccess
import Pseudoroot.Verification.ShmMap.RawCells
import Pseudoroot.Verification.ShmMap.Stores

/-! # Lookups while another process inserts

A lookup takes several accesses. It relies on three things: a used slot stays used, a live
slot keeps its key, and the entry of the key in question keeps its metadata. -/

namespace Pseudoroot

open Calls Calls.Program

section Programs

variable {n : ℕ} (codec : XattrCodec)

/-! ## Without interruption -/

theorem load_bind {α : Type} (i : Fin n) (w : SlotWord)
    (next : UInt64 → Program (accessSignature n) α) :
    load i w >>= next = .call (ShmAccess.load i w) next := rfl

theorem loadPrefix_bind {α : Type} (i : Fin n) (next : ℕ → Program (accessSignature n) α) :
    loadPrefix i >>= next = .call (ShmAccess.loadPrefix i) next := rfl

theorem loadBody_bind {α : Type} (i : Fin n) (len : ℕ)
    (next : List UInt8 → Program (accessSignature n) α) :
    loadBody i len >>= next = .call (ShmAccess.loadBody i len) next := rfl

theorem run_load (map : ShmInodeMap n) (i : Fin n) (w : SlotWord) {α : Type}
    (next : UInt64 → Program (accessSignature n) α) :
    run ShmInodeMap.access (load i w >>= next) map =
      run ShmInodeMap.access (next ((map.slot i).get w)) map := rfl

theorem run_probeProgram (map : ShmInodeMap n) (key : InodeKey) (fuel : ℕ) (idx : Fin n)
    (reuse : Option (Fin n)) :
    run ShmInodeMap.access (probeProgram key fuel idx reuse) map =
      (map.probeLoop key fuel idx reuse, map) := by
  induction fuel generalizing idx reuse with
  | zero => rfl
  | succ fuel ih =>
      rw [probeProgram, run_load, ShmInodeMap.probeLoop]
      have hword : ((map.slot idx).get .occupied).toUInt32 = (map.slot idx).occupied :=
        UInt32.toUInt32_toUInt64 _
      simp only [hword]
      by_cases hempty : (map.slot idx).occupied = slotEmpty
      · rw [if_pos hempty, if_pos hempty]
        rfl
      rw [if_neg hempty, if_neg hempty]
      by_cases hlive : (map.slot idx).occupied = slotLive
      · have hreuse : (if (map.slot idx).occupied = slotTombstone ∧ reuse.isNone then some idx
            else reuse) = reuse := if_neg (by simp [hlive, slotLive, slotTombstone])
        rw [if_pos hlive, run_load, hreuse]
        by_cases hdev : (map.slot idx).get .dev = key.1
        · rw [if_pos hdev, run_load]
          by_cases hino : (map.slot idx).get .ino = key.2
          · rw [if_pos hino, if_pos ⟨hlive, hdev, hino⟩]
            rfl
          · rw [if_neg hino, if_neg fun h => hino h.2.2, ih]
        · rw [if_neg hdev, if_neg fun h => hdev h.2.1, ih]
      · have hother : ¬ ((map.slot idx).occupied = slotLive ∧ (map.slot idx).dev = key.1 ∧
            (map.slot idx).ino = key.2) := fun h => hlive h.1
        rw [if_neg hlive, if_neg hother, ih]

theorem run_readXattrsProgram (map : ShmInodeMap n) (i : Fin n) :
    run ShmInodeMap.access (readXattrsProgram codec i) map = (map.readXattrs codec i, map) := by
  show run ShmInodeMap.access (if (map.xattrPage i).lengthPrefix = 0 ∨
    (map.xattrPage i).lengthPrefix > xattrPageSize - 4 then _ else _) map = _
  unfold ShmInodeMap.readXattrs
  dsimp only
  split <;> rfl

theorem run_readSlotProgram (map : ShmInodeMap n) (i : Fin n) :
    run ShmInodeMap.access (readSlotProgram codec i) map = (map.inodeAt codec i, map) := by
  have hload : ∀ w, run ShmInodeMap.access (load i w) map = ((map.slot i).get w, map) :=
    fun _ => rfl
  simp only [readSlotProgram, run_bind, hload, run_readXattrsProgram, run_pure, Slot.get,
    UInt32.toUInt32_toUInt64, ShmInodeMap.inodeAt]

/-- With no other process, the accesses are the lookup. -/
theorem run_getInodeProgram [NeZero n] (map : ShmInodeMap n) (key : InodeKey) :
    run ShmInodeMap.access (getInodeProgram codec key) map = (map.getInode codec key, map) := by
  rw [getInodeProgram, run_bind, run_probeProgram, ShmInodeMap.getInode, ShmInodeMap.probe]
  cases map.probeLoop key n (ShmInodeMap.hash key) none with
  | found i => simp only [run_bind, run_readSlotProgram, run_pure]
  | vacant i => rfl
  | full => rfl

/-! ## Only loads -/

theorem isRead_load (i : Fin n) (w : SlotWord) :
    IsRead ShmInodeMap.access (ShmAccess.load i w : (accessSignature n).Call) := fun _ => rfl

theorem onlyCalls_probeProgram (key : InodeKey) (fuel : ℕ) (idx : Fin n)
    (reuse : Option (Fin n)) :
    OnlyCalls (IsRead ShmInodeMap.access) (fun _ => True) (probeProgram key fuel idx reuse) := by
  induction fuel generalizing idx reuse with
  | zero => trivial
  | succ fuel ih =>
      rw [probeProgram, load_bind]
      refine ⟨isRead_load idx .occupied, fun occupied => ?_⟩
      dsimp only
      split
      · trivial
      · split
        · rw [load_bind]
          refine ⟨isRead_load idx .dev, fun dev => ?_⟩
          dsimp only
          split
          · rw [load_bind]
            refine ⟨isRead_load idx .ino, fun ino => ?_⟩
            dsimp only
            split
            · trivial
            · exact ih _ _
          · exact ih _ _
        · exact ih _ _

theorem onlyCalls_readXattrsProgram (i : Fin n) :
    OnlyCalls (IsRead ShmInodeMap.access) (fun _ => True) (readXattrsProgram codec i) := by
  rw [readXattrsProgram, loadPrefix_bind]
  refine ⟨fun _ => rfl, fun len => ?_⟩
  dsimp only
  split
  · trivial
  · exact ⟨fun _ => rfl, fun _ => trivial⟩

theorem onlyCalls_readSlotProgram (i : Fin n) :
    OnlyCalls (IsRead ShmInodeMap.access) (fun _ => True) (readSlotProgram codec i) :=
  ⟨isRead_load i .uid, fun _ => ⟨isRead_load i .gid, fun _ => ⟨isRead_load i .mode, fun _ =>
    ⟨isRead_load i .rdev, fun _ => (onlyCalls_readXattrsProgram codec i).bind fun _ _ => trivial⟩⟩⟩⟩

theorem onlyCalls_getInodeProgram [NeZero n] (key : InodeKey) :
    OnlyCalls (IsRead ShmInodeMap.access) (fun _ => True) (getInodeProgram (n := n) codec key) := by
  refine (onlyCalls_probeProgram key n (ShmInodeMap.hash (n := n) key) none).bind fun outcome _ => ?_
  cases outcome with
  | found i => exact (onlyCalls_readSlotProgram codec i).bind fun _ _ => trivial
  | vacant i => trivial
  | full => trivial

end Programs

/-! ## What a lookup relies on -/

namespace ShmInodeMap

variable {n : ℕ}

/-- A change of the map that does not disturb a lookup of the key. -/
structure Grows (key : InodeKey) (map map' : ShmInodeMap n) : Prop where
  used : ∀ i, (map.slot i).occupied ≠ slotEmpty → (map'.slot i).occupied ≠ slotEmpty
  live : ∀ i, (map.slot i).occupied = slotLive →
    (map'.slot i).occupied = slotLive ∧ (map'.slot i).dev = (map.slot i).dev ∧
      (map'.slot i).ino = (map.slot i).ino
  entry : ∀ i, (map.slot i).LiveFor key →
    map'.slot i = map.slot i ∧ map'.xattrPage i = map.xattrPage i

variable {key : InodeKey} {map map' map'' : ShmInodeMap n}

theorem Grows.refl (key : InodeKey) (map : ShmInodeMap n) : map.Grows key map :=
  ⟨fun _ h => h, fun _ h => ⟨h, rfl, rfl⟩, fun _ _ => ⟨rfl, rfl⟩⟩

theorem Grows.liveFor (h : map.Grows key map') {i : Fin n} (hi : (map.slot i).LiveFor key) :
    (map'.slot i).LiveFor key := by
  rw [(h.entry i hi).1]
  exact hi

theorem Grows.trans (h : map.Grows key map') (h' : map'.Grows key map'') :
    map.Grows key map'' := by
  refine ⟨fun i hi => h'.used i (h.used i hi), fun i hi => ?_, fun i hi => ?_⟩
  · obtain ⟨hlive, hdev, hino⟩ := h.live i hi
    obtain ⟨hlive', hdev', hino'⟩ := h'.live i hlive
    exact ⟨hlive', hdev'.trans hdev, hino'.trans hino⟩
  · obtain ⟨hslot, hpage⟩ := h.entry i hi
    obtain ⟨hslot', hpage'⟩ := h'.entry i (h.liveFor hi)
    exact ⟨hslot'.trans hslot, hpage'.trans hpage⟩

theorem Grows.inodeAt (codec : XattrCodec) (h : map.Grows key map') {i : Fin n}
    (hi : (map.slot i).LiveFor key) : map'.inodeAt codec i = map.inodeAt codec i := by
  obtain ⟨hslot, hpage⟩ := h.entry i hi
  simp only [ShmInodeMap.inodeAt, readXattrs, hslot, hpage]

/-- A live slot of the key is alone, and no slot before it on its path is unused. -/
structure Reaches [NeZero n] (map : ShmInodeMap n) (key : InodeKey) : Prop where
  unique : ∀ i j, (map.slot i).LiveFor key → (map.slot j).LiveFor key → i = j
  path : ∀ i, (map.slot i).LiveFor key → ∀ e < LinearProbing.distance (hash key) i,
    (map.slot (LinearProbing.advance (hash key) e)).occupied ≠ slotEmpty

/-- What an access of a lookup of the key may touch: the word of any slot, the key of a live
one, and all of the entry of the key. -/
def MayLoad (key : InodeKey) : ShmAccess n → ShmInodeMap n → Prop
  | .load _ .occupied, _ => True
  | .load i .dev, map => (map.slot i).occupied = slotLive
  | .load i .ino, map => (map.slot i).occupied = slotLive
  | .load i _, map => (map.slot i).LiveFor key
  | .loadPrefix i, map => (map.slot i).LiveFor key
  | .loadBody i _, map => (map.slot i).LiveFor key
  | .store _, _ => False

end ShmInodeMap

open ShmInodeMap

section Lookups

variable {n : ℕ} {codec : XattrCodec} {key : InodeKey} {start map : ShmInodeMap n}

/-- The outcome names a live slot of the key, or there was none at the start. -/
def ProbeAnswer (key : InodeKey) (start : ShmInodeMap n) (outcome : Probe n)
    (map : ShmInodeMap n) : Prop :=
  match outcome with
  | .found i => (map.slot i).LiveFor key
  | _ => ∀ i, ¬ (start.slot i).LiveFor key

theorem under_probeProgram [NeZero n] (hstart : start.Reaches key) (fuel d : ℕ)
    (hfuel : d + fuel = n) (reuse : Option (Fin n)) (hgrows : start.Grows key map)
    (hpassed : ∀ i, (start.slot i).LiveFor key → d ≤ LinearProbing.distance (hash key) i) :
    Under access (Grows key) (MayLoad key) (ProbeAnswer key start)
      (probeProgram key fuel (LinearProbing.advance (hash key) d) reuse) map := by
  induction fuel generalizing d reuse map with
  | zero =>
      intro map' _ i hi
      have hlt := LinearProbing.distance_lt (hash key) i
      have hle := hpassed i hi
      omega
  | succ fuel ih =>
      -- The slot at distance `d` turns out not to hold the key.
      have hnext : ∀ {map' : ShmInodeMap n} (reuse' : Option (Fin n)), start.Grows key map' →
          (¬ (start.slot (LinearProbing.advance (hash key) d)).LiveFor key) →
          Under access (Grows key) (MayLoad key) (ProbeAnswer key start)
            (probeProgram key fuel
              (LinearProbing.next (LinearProbing.advance (hash key) d)) reuse') map' := by
        intro map' reuse' hgrows' hnot
        rw [LinearProbing.next_advance]
        refine ih (d + 1) (by omega) reuse' hgrows' fun i hi => ?_
        refine Nat.lt_of_le_of_ne (hpassed i hi) fun heq => hnot ?_
        rwa [heq, LinearProbing.advance_distance]
      rw [probeProgram, load_bind]
      refine under_call fun map₁ h₁ => ⟨trivial, ?_⟩
      have hgrows₁ := hgrows.trans h₁
      have hword : ((access (.load (LinearProbing.advance (hash key) d) .occupied : ShmAccess n)
          map₁).1 : UInt64).toUInt32 =
          (map₁.slot (LinearProbing.advance (hash key) d)).occupied :=
        UInt32.toUInt32_toUInt64 _
      dsimp only
      rw [hword]
      by_cases hempty : (map₁.slot (LinearProbing.advance (hash key) d)).occupied = slotEmpty
      · rw [if_pos hempty]
        refine under_done fun map₂ _ i hi => ?_
        rcases Nat.lt_or_eq_of_le (hpassed i hi) with hlt | heq
        · exact hgrows₁.used _ (hstart.path i hi d hlt) hempty
        · have hlive := (hgrows₁.liveFor hi).1
          rw [heq, LinearProbing.advance_distance, hlive] at hempty
          cases hempty
      rw [if_neg hempty]
      by_cases hlive : (map₁.slot (LinearProbing.advance (hash key) d)).occupied = slotLive
      · rw [if_pos hlive, load_bind]
        refine under_call fun map₂ h₂ => ⟨(h₂.live _ hlive).1, ?_⟩
        obtain ⟨hlive₂, -, -⟩ := h₂.live _ hlive
        have hgrows₂ := hgrows₁.trans h₂
        dsimp only
        split
        · rename_i hdev
          rw [load_bind]
          refine under_call fun map₃ h₃ => ⟨(h₃.live _ hlive₂).1, ?_⟩
          obtain ⟨hlive₃, hdev₃, -⟩ := h₃.live _ hlive₂
          dsimp only
          split
          · rename_i hino
            exact under_done fun map₄ h₄ => h₄.liveFor ⟨hlive₃, hdev₃.trans hdev, hino⟩
          · rename_i hino
            refine hnext reuse (hgrows₂.trans h₃) fun hhere => hino ?_
            exact ((hgrows₂.trans h₃).liveFor hhere).2.2
        · rename_i hdev
          refine hnext reuse hgrows₂ fun hhere => hdev ?_
          exact (hgrows₂.liveFor hhere).2.1
      · rw [if_neg hlive]
        exact hnext _ hgrows₁ fun hhere => hlive (hgrows₁.liveFor hhere).1

/-- A load from the entry of the key sees it as it was when the slot was found. -/
theorem under_load {α : Type} {Q : α → ShmInodeMap n → Prop} {i : Fin n}
    (hi : (start.slot i).LiveFor key) {w : SlotWord}
    (hpre : ∀ {map : ShmInodeMap n}, (map.slot i).LiveFor key → MayLoad key (.load i w) map)
    {next : UInt64 → Program (accessSignature n) α}
    (hnext : ∀ {map}, start.Grows key map → Under access (Grows key) (MayLoad key) Q
      (next ((start.slot i).get w)) map)
    {map : ShmInodeMap n} (hgrows : start.Grows key map) :
    Under access (Grows key) (MayLoad key) Q (load i w >>= next) map := by
  rw [load_bind]
  refine under_call fun map' h' => ⟨hpre ((hgrows.trans h').liveFor hi), ?_⟩
  have hsame : (access (.load i w : ShmAccess n) map').1 = (start.slot i).get w := by
    show (map'.slot i).get w = (start.slot i).get w
    rw [((hgrows.trans h').entry i hi).1]
  rw [hsame]
  exact hnext (hgrows.trans h')

theorem under_readXattrsProgram (codec : XattrCodec) {i : Fin n} (hi : (start.slot i).LiveFor key)
    (hgrows : start.Grows key map) :
    Under access (Grows key) (MayLoad key)
      (fun xattrs map' => start.Grows key map' ∧ xattrs = start.readXattrs codec i)
      (readXattrsProgram codec i) map := by
  rw [readXattrsProgram, loadPrefix_bind]
  refine under_call fun map₁ h₁ => ⟨(hgrows.trans h₁).liveFor hi, ?_⟩
  have hloaded : (access (.loadPrefix i : ShmAccess n) map₁).1 =
      (start.xattrPage i).lengthPrefix := by
    show (map₁.xattrPage i).lengthPrefix = _
    rw [((hgrows.trans h₁).entry i hi).2]
  rw [hloaded, readXattrs]
  split
  · exact under_done fun map₂ h₂ => ⟨(hgrows.trans h₁).trans h₂, rfl⟩
  · rw [loadBody_bind]
    refine under_call fun map₂ h₂ => ⟨((hgrows.trans h₁).trans h₂).liveFor hi, ?_⟩
    refine under_done fun map₃ h₃ => ⟨((hgrows.trans h₁).trans h₂).trans h₃, ?_⟩
    show (codec.deserialize ((map₂.xattrPage i).body _)).getD ∅ = _
    rw [(((hgrows.trans h₁).trans h₂).entry i hi).2]

theorem under_readSlotProgram (codec : XattrCodec) {i : Fin n} (hi : (start.slot i).LiveFor key) :
    Under access (Grows key) (MayLoad key)
      (fun inode map' => start.Grows key map' ∧ inode = start.inodeAt codec i)
      (readSlotProgram codec i) start := by
  refine under_load hi (w := .uid) id ?_ (Grows.refl key start)
  refine under_load hi (w := .gid) id ?_
  refine under_load hi (w := .mode) id ?_
  refine under_load hi (w := .rdev) id ?_
  intro map h
  refine (under_readXattrsProgram codec hi h).bind (Grows.refl key) ?_
  rintro xattrs map' ⟨h', rfl⟩
  refine under_done fun map'' h'' => ⟨h'.trans h'', ?_⟩
  simp only [Slot.get, UInt32.toUInt32_toUInt64, inodeAt]
  rfl

/-- The answer of a lookup: the entry as it is in the map at the end, or none when the map had
none at the start. -/
def LookupAnswer (codec : XattrCodec) (key : InodeKey) (start : ShmInodeMap n)
    (result : Option FakeInode) (map : ShmInodeMap n) : Prop :=
  match result with
  | some inode => ∃ i, (map.slot i).LiveFor key ∧ map.inodeAt codec i = inode
  | none => ∀ i, ¬ (start.slot i).LiveFor key

theorem under_getInodeProgram [NeZero n] (hstart : start.Reaches key) :
    Under access (Grows key) (MayLoad key) (LookupAnswer codec key start)
      (getInodeProgram codec key) start := by
  have hprobe := under_probeProgram hstart n 0 (Nat.zero_add n) none (Grows.refl key start)
    fun _ _ => Nat.zero_le _
  rw [LinearProbing.advance_zero] at hprobe
  refine hprobe.bind (Grows.refl key) fun outcome map houtcome => ?_
  cases outcome with
  | found i =>
      refine (under_readSlotProgram codec houtcome).bind (Grows.refl key) ?_
      rintro inode map' ⟨h', rfl⟩
      refine under_done fun map'' h'' => ⟨i, (h'.trans h'').liveFor houtcome, ?_⟩
      exact (h'.trans h'').inodeAt codec houtcome
  | vacant i => exact under_done fun _ _ => houtcome
  | full => exact under_done fun _ _ => houtcome

end Lookups

end Pseudoroot
