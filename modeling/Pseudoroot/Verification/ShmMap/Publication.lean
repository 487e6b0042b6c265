import Pseudoroot.Verification.ShmMap.Invariant
import Pseudoroot.Verification.ShmMap.Readers

/-! # Publication of entries

An insertion stores the word of its slot last. Of the stores before it a lookup of the key
notices nothing, and with it the entry becomes reachable as a whole. -/

namespace Pseudoroot

open Calls Calls.Program

namespace ShmInodeMap

variable {n : ℕ} [NeZero n] {codec : XattrCodec} {key : InodeKey} {map map' : ShmInodeMap n}

/-! ## What a lookup finds -/

theorem Valid.reaches (h : map.Valid codec) (key : InodeKey) : map.Reaches key := by
  have hlive : ∀ i, (map.slot i).LiveFor key → map.cells codec i = .live key (map.inodeAt codec i) :=
    fun i hi => cells_eq_live_iff.mpr ⟨hi.1, hi.2.1, hi.2.2, rfl⟩
  constructor
  · exact fun i j hi hj => h.wellFormed.unique (hlive i hi) (hlive j hj)
  · exact fun i hi e he hempty =>
      h.wellFormed.reachable (hlive i hi) e he (cells_eq_empty_iff.mpr hempty)

theorem Reaches.getInode_eq_some (h : map.Reaches key) {i : Fin n} (hi : (map.slot i).LiveFor key) :
    map.getInode codec key = some (map.inodeAt codec i) := by
  have hfound : map.probe key = .found i := by
    rw [probe_eq_rawCells]
    refine LinearProbing.probe_eq_found_of_unique (Slot.rawCell_eq_live_iff.mpr hi) ?_ ?_
    · exact fun j _ hj => h.unique j i (Slot.rawCell_eq_live_iff.mp hj) hi
    · exact fun e he hempty => h.path i hi e he (Slot.rawCell_eq_empty_iff.mp hempty)
  rw [getInode, hfound]

theorem getInode_eq_none (h : ∀ i, ¬ (map.slot i).LiveFor key) :
    map.getInode codec key = none := by
  rw [getInode]
  cases hp : map.probe key with
  | found i => exact absurd (live_of_probe_eq_found hp) (h i)
  | vacant i => rfl
  | full => rfl

/-- A change that makes no slot live for the key leaves the answer as it is. -/
theorem Grows.getInode_eq (h : map.Grows key map') (hmap : map.Reaches key)
    (hmap' : map'.Reaches key)
    (hsame : ∀ i, (map'.slot i).LiveFor key → (map.slot i).LiveFor key) :
    map'.getInode codec key = map.getInode codec key := by
  by_cases hlive : ∃ i, (map.slot i).LiveFor key
  · obtain ⟨i, hi⟩ := hlive
    rw [hmap.getInode_eq_some hi, hmap'.getInode_eq_some (h.liveFor hi), h.inodeAt codec hi]
  · have hnone : ∀ i, ¬ (map.slot i).LiveFor key := fun i hi => hlive ⟨i, hi⟩
    rw [getInode_eq_none hnone, getInode_eq_none fun i hi => hnone i (hsame i hi)]

end ShmInodeMap

open ShmInodeMap

/-! ## Stores that a lookup does not notice -/

/-- The store and the access touch the same memory, and not by atomic accesses to the word of
a slot. -/
def ShmStore.Conflicts {n : ℕ} : ShmStore n → ShmAccess n → Prop
  | .slot i w _, .load j w' => i = j ∧ w = w' ∧ w ≠ .occupied
  | .page i _ _, .loadPrefix j => i = j
  | .page i _ _, .loadBody j _ => i = j
  | _, _ => False

/-- A store into slot `i` or its page that does not touch the word, nor the key of a live slot. -/
def ShmStore.Within {n : ℕ} (i : Fin n) (live : Prop) : ShmStore n → Prop
  | .header _ _ => False
  | .slot j w _ => j = i ∧ w ≠ .occupied ∧ (live → w ≠ .dev ∧ w ≠ .ino)
  | .page j _ _ => j = i

/-- Each store leaves lookups of the key undisturbed, and none but the last changes what they
find. -/
def Publishes {n : ℕ} [NeZero n] (key : InodeKey) : List (ShmStore n) → ShmInodeMap n → Prop
  | [], map => map.Reaches key
  | s :: rest, map =>
    map.Reaches key ∧ map.Grows key (s.apply map) ∧
      (∀ c, MayLoad key c map → ¬ s.Conflicts c) ∧
      (rest ≠ [] → ∀ i, ((s.apply map).slot i).LiveFor key → (map.slot i).LiveFor key) ∧
      Publishes key rest (s.apply map)

section Stores

variable {n : ℕ} {key : InodeKey} {map : ShmInodeMap n} {i : Fin n} {live : Prop}

theorem Publishes.reaches [NeZero n] {stores : List (ShmStore n)} (h : Publishes key stores map) :
    map.Reaches key := by
  cases stores with
  | nil => exact h
  | cons s rest => exact h.1

theorem ShmStore.Within.slot_of_ne {s : ShmStore n} (h : s.Within i live) {j : Fin n} (hj : j ≠ i) :
    (s.apply map).slot j = map.slot j := by
  cases s with
  | header w v => exact h.elim
  | slot k w v =>
      obtain ⟨rfl, -, -⟩ := h
      exact slot_setSlot_of_ne map hj _
  | page k off src => rfl

theorem ShmStore.Within.xattrPage_of_ne {s : ShmStore n} (h : s.Within i live) {j : Fin n}
    (hj : j ≠ i) : (s.apply map).xattrPage j = map.xattrPage j := by
  cases s with
  | header w v => exact h.elim
  | slot k w v => rfl
  | page k off src =>
      cases h
      exact xattrPage_setPage_of_ne map hj _

theorem ShmStore.Within.occupied {s : ShmStore n} (h : s.Within i live) (j : Fin n) :
    ((s.apply map).slot j).occupied = (map.slot j).occupied := by
  by_cases hj : j = i
  · subst hj
    cases s with
    | header w v => exact h.elim
    | slot k w v =>
        obtain ⟨rfl, hw, -⟩ := h
        rw [apply, slot_setSlot_self]
        cases w <;> first | exact absurd rfl hw | rfl
    | page k off src => rfl
  · rw [h.slot_of_ne hj]

theorem ShmStore.Within.sameKey {s : ShmStore n} (h : s.Within i live) {j : Fin n}
    (hj : (map.slot j).occupied = slotLive) (hlive : (map.slot i).occupied = slotLive → live) :
    ((s.apply map).slot j).dev = (map.slot j).dev ∧
      ((s.apply map).slot j).ino = (map.slot j).ino := by
  by_cases hji : j = i
  · subst hji
    cases s with
    | header w v => exact h.elim
    | slot k w v =>
        obtain ⟨rfl, -, hkey⟩ := h
        obtain ⟨hdev, hino⟩ := hkey (hlive hj)
        rw [apply, slot_setSlot_self]
        cases w <;> first | exact absurd rfl hdev | exact absurd rfl hino | exact ⟨rfl, rfl⟩
    | page k off src => exact ⟨rfl, rfl⟩
  · rw [h.slot_of_ne hji]
    exact ⟨rfl, rfl⟩

theorem ShmStore.Within.liveFor_iff {s : ShmStore n} (h : s.Within i live)
    (hlive : (map.slot i).occupied = slotLive → live) (j : Fin n) :
    ((s.apply map).slot j).LiveFor key ↔ (map.slot j).LiveFor key := by
  unfold Slot.LiveFor
  rw [h.occupied]
  refine and_congr_right fun hj => ?_
  obtain ⟨hdev, hino⟩ := h.sameKey hj hlive
  rw [hdev, hino]

theorem ShmStore.Within.grows {s : ShmStore n} (h : s.Within i live)
    (hlive : (map.slot i).occupied = slotLive → live) (hi : ¬ (map.slot i).LiveFor key) :
    map.Grows key (s.apply map) := by
  refine ⟨fun j hj => ?_, fun j hj => ?_, fun j hj => ?_⟩
  · rwa [h.occupied]
  · exact ⟨(h.occupied j).trans hj, h.sameKey hj hlive⟩
  · have hne : j ≠ i := fun hji => hi (hji ▸ hj)
    exact ⟨h.slot_of_ne hne, h.xattrPage_of_ne hne⟩

theorem ShmStore.Within.reaches [NeZero n] {s : ShmStore n} (h : s.Within i live)
    (hlive : (map.slot i).occupied = slotLive → live) (hmap : map.Reaches key) :
    (s.apply map).Reaches key := by
  constructor
  · intro j j' hj hj'
    exact hmap.unique j j' ((h.liveFor_iff hlive j).mp hj) ((h.liveFor_iff hlive j').mp hj')
  · intro j hj e he
    rw [h.occupied]
    exact hmap.path j ((h.liveFor_iff hlive j).mp hj) e he

theorem ShmStore.Within.not_conflicts {s : ShmStore n} (h : s.Within i live)
    (hlive : (map.slot i).occupied = slotLive → live) (hi : ¬ (map.slot i).LiveFor key)
    {c : ShmAccess n} (hc : MayLoad key c map) : ¬ s.Conflicts c := by
  cases s with
  | header w v => exact fun hconflict => hconflict
  | slot k w v =>
      obtain ⟨rfl, hw, hkey⟩ := h
      cases c with
      | load j w' =>
          rintro ⟨rfl, rfl, -⟩
          cases w with
          | occupied => exact hw rfl
          | dev => exact (hkey (hlive hc)).1 rfl
          | ino => exact (hkey (hlive hc)).2 rfl
          | uid | gid | mode | rdev => exact hi hc
      | loadPrefix j => exact fun hconflict => hconflict
      | loadBody j len => exact fun hconflict => hconflict
      | store t => exact hc.elim
  | page k off src =>
      cases h
      cases c with
      | load j w => exact fun hconflict => hconflict
      | loadPrefix j | loadBody j len =>
          rintro rfl
          exact hi hc
      | store t => exact hc.elim

/-- Stores within a slot that is not the key's go before others. -/
theorem publishes_append [NeZero n] {quiet tail : List (ShmStore n)}
    (hquiet : ∀ s ∈ quiet, s.Within i live) (hlive : (map.slot i).occupied = slotLive → live)
    (hi : ¬ (map.slot i).LiveFor key) (hmap : map.Reaches key)
    (htail : (quiet.foldl ShmStore.apply map).Reaches key →
      Publishes key tail (quiet.foldl ShmStore.apply map)) :
    Publishes key (quiet ++ tail) map := by
  induction quiet generalizing map with
  | nil => exact htail hmap
  | cons s rest ih =>
      have hs := hquiet s List.mem_cons_self
      have hreaches := hs.reaches hlive hmap
      refine ⟨hmap, hs.grows hlive hi, fun c hc => hs.not_conflicts hlive hi hc,
        fun _ j hj => (hs.liveFor_iff hlive j).mp hj, ?_⟩
      refine ih (fun t ht => hquiet t (List.mem_cons_of_mem _ ht)) ?_ ?_ hreaches htail
      · rwa [hs.occupied]
      · rwa [hs.liveFor_iff hlive]

/-! ## The stores of an upsert -/

theorem within_writeXattrsStores (codec : XattrCodec) (xattrs : XattrMap) :
    ∀ s ∈ writeXattrsStores codec i xattrs, s.Within i live := by
  intro s hs
  unfold writeXattrsStores at hs
  split at hs
  · rw [List.mem_singleton] at hs
    subst hs
    rfl
  · split at hs
    · simp only [List.mem_cons, List.not_mem_nil, or_false] at hs
      rcases hs with rfl | rfl <;> rfl
    · rw [List.mem_singleton] at hs
      subst hs
      rfl

/-- An update of an entry that is found. -/
theorem within_storesOf_found (codec : XattrCodec) {op : StoreOp} (hop : ∀ k, op ≠ .removeInode k) :
    ∀ s ∈ storesOf codec op (.found i), s.Within i live := by
  intro s hs
  cases op with
  | getInode k => cases hs
  | upsertChown k uid gid du dg =>
      simp only [storesOf, upsertChownStores, List.mem_append] at hs
      rcases hs with hs | hs <;> split at hs <;> simp only [List.mem_singleton, List.not_mem_nil] at hs
      all_goals
        subst hs
        exact ⟨rfl, by decide, fun _ => by decide⟩
  | upsertInode k inode =>
      simp only [storesOf, upsertInodeStores, List.mem_append, List.mem_cons, List.not_mem_nil,
        or_false] at hs
      rcases hs with (rfl | rfl | rfl | rfl) | hs
      all_goals first
        | exact ⟨rfl, by decide, fun _ => by decide⟩
        | exact within_writeXattrsStores codec inode.xattrs s hs
  | removeInode k => exact absurd rfl (hop k)

/-- The stores of an insertion before the last one. -/
def entryStores (codec : XattrCodec) (i : Fin n) (key : InodeKey) (uid gid mode : UInt32)
    (rdev : UInt64) (xattrs : XattrMap) : List (ShmStore n) :=
  writeXattrsStores codec i xattrs ++
    [.slot i .dev key.1, .slot i .ino key.2, .slot i .uid uid.toUInt64,
      .slot i .gid gid.toUInt64, .slot i .mode mode.toUInt64, .slot i .rdev rdev]

theorem insertStores_eq (codec : XattrCodec) (i : Fin n) (key : InodeKey) (uid gid mode : UInt32)
    (rdev : UInt64) (xattrs : XattrMap) :
    insertStores codec i key uid gid mode rdev xattrs =
      entryStores codec i key uid gid mode rdev xattrs ++
        [.slot i .occupied slotLive.toUInt64] := by
  rw [entryStores, List.append_assoc]
  rfl

theorem within_entryStores (codec : XattrCodec) (k : InodeKey) (uid gid mode : UInt32)
    (rdev : UInt64) (xattrs : XattrMap) :
    ∀ s ∈ entryStores codec i k uid gid mode rdev xattrs, s.Within i False := by
  intro s hs
  rw [entryStores, List.mem_append] at hs
  rcases hs with hs | hs
  · exact within_writeXattrsStores codec xattrs s hs
  · simp only [List.mem_cons, List.not_mem_nil, or_false] at hs
    rcases hs with rfl | rfl | rfl | rfl | rfl | rfl <;> exact ⟨rfl, by decide, False.elim⟩

theorem foldl_entryStores (codec : XattrCodec) (k : InodeKey) (uid gid mode : UInt32)
    (rdev : UInt64) (xattrs : XattrMap) :
    ((entryStores codec i k uid gid mode rdev xattrs).foldl ShmStore.apply map).slot =
      Function.update map.slot i ⟨(map.slot i).occupied, k.1, k.2, uid, gid, mode, rdev⟩ := by
  rw [entryStores, List.foldl_append, foldl_writeXattrsStores]
  simp only [List.foldl_cons, List.foldl_nil, ShmStore.apply, setSlot_setSlot, slot_setSlot_self,
    Slot.set, UInt32.toUInt32_toUInt64, slot_writeXattrs]
  rw [setSlot, slot_writeXattrs]

variable [NeZero n]

/-- The last store of an insertion into a free slot makes the entry reachable as a whole. -/
theorem publishes_occupied {k : InodeKey} (hmap : map.Reaches key)
    (hi : (map.slot i).occupied ≠ slotLive) (hdev : (map.slot i).dev = k.1)
    (hino : (map.slot i).ino = k.2) (hfresh : k = key → ∀ j, ¬ (map.slot j).LiveFor key)
    (hpath : ∀ e < LinearProbing.distance (hash k) i,
      (map.slot (LinearProbing.advance (hash k) e)).occupied ≠ slotEmpty) :
    Publishes key [.slot i .occupied slotLive.toUInt64] map := by
  have hne : ∀ {j}, (map.slot j).occupied = slotLive → j ≠ i := fun hj hji => hi (hji ▸ hj)
  have hother : ∀ {j}, j ≠ i → ((ShmStore.slot i .occupied slotLive.toUInt64).apply map).slot j =
      map.slot j := fun hji => slot_setSlot_of_ne map hji _
  have hself : ((ShmStore.slot i .occupied slotLive.toUInt64).apply map).slot i =
      { map.slot i with occupied := slotLive } := slot_setSlot_self map i _
  have hused : ∀ {j}, (map.slot j).occupied ≠ slotEmpty →
      (((ShmStore.slot i .occupied slotLive.toUInt64).apply map).slot j).occupied ≠ slotEmpty := by
    intro j hj
    by_cases hji : j = i
    · subst hji
      rw [hself]
      show slotLive ≠ slotEmpty
      decide
    · rwa [hother hji]
  -- The slot becomes live for `k` only.
  have hkey : (((ShmStore.slot i .occupied slotLive.toUInt64).apply map).slot i).LiveFor key →
      k = key := by
    rw [hself]
    exact fun h => Prod.ext (hdev.symm.trans h.2.1) (hino.symm.trans h.2.2)
  have hold : ∀ {j}, (((ShmStore.slot i .occupied slotLive.toUInt64).apply map).slot j).LiveFor key →
      j ≠ i → (map.slot j).LiveFor key := fun hj hji => hother hji ▸ hj
  refine ⟨hmap, ⟨fun j hj => hused hj, fun j hj => ?_, fun j hj => ?_⟩, fun c _ => ?_,
    fun h => absurd rfl h, ?_, ?_⟩
  · rw [hother (hne hj)]
    exact ⟨hj, rfl, rfl⟩
  · exact ⟨hother (hne hj.1), rfl⟩
  · cases c with
    | load j w => exact fun hconflict => hconflict.2.2 rfl
    | loadPrefix j | loadBody j len | store s => exact fun hconflict => hconflict
  · intro j j' hj hj'
    by_cases hji : j = i <;> by_cases hji' : j' = i
    · rw [hji, hji']
    · exact absurd (hold hj' hji') (hfresh (hkey (hji ▸ hj)) j')
    · exact absurd (hold hj hji) (hfresh (hkey (hji' ▸ hj')) j)
    · exact hmap.unique j j' (hold hj hji) (hold hj' hji')
  · intro j hj e he
    by_cases hji : j = i
    · subst hji
      exact hused (hkey hj ▸ hpath e (hkey hj ▸ he))
    · exact hused (hmap.path j (hold hj hji) e he)

theorem publishes_insertStores (codec : XattrCodec) {k : InodeKey} (hp : map.probe k = .vacant i)
    (hmap : map.Reaches key) (hfresh : k = key → ∀ j, ¬ (map.slot j).LiveFor key)
    (uid gid mode : UInt32) (rdev : UInt64) (xattrs : XattrMap) :
    Publishes key (insertStores codec i k uid gid mode rdev xattrs) map := by
  have hi : (map.slot i).occupied ≠ slotLive := by
    rcases (free_of_probe_eq_vacant hp).1 with h | h <;> rw [h] <;> decide
  have hwords : ∀ j, (((entryStores codec i k uid gid mode rdev xattrs).foldl ShmStore.apply
      map).slot j).occupied = (map.slot j).occupied := by
    intro j
    rw [foldl_entryStores]
    by_cases hji : j = i
    · subst hji
      rw [Function.update_self]
    · rw [Function.update_of_ne hji]
  rw [insertStores_eq]
  refine publishes_append (within_entryStores codec k uid gid mode rdev xattrs) hi
    (fun h => hi h.1) hmap fun hreaches => publishes_occupied (k := k) hreaches ?_ ?_ ?_ ?_ ?_
  · rwa [hwords]
  · rw [foldl_entryStores, Function.update_self]
  · rw [foldl_entryStores, Function.update_self]
  · intro hk j hj
    have hlive := (hwords j).symm.trans hj.1
    have hji : j ≠ i := fun h => hi (h ▸ hlive)
    rw [foldl_entryStores, Function.update_of_ne hji] at hj
    exact hfresh hk j hj
  · intro e he
    rw [hwords]
    intro hempty
    rw [probe_eq_rawCells] at hp
    exact (LinearProbing.free_of_probe_eq_vacant hp).2 e he (Slot.rawCell_eq_empty_iff.mpr hempty)

/-- The operation updates the entry of another key, or inserts one. -/
def Inserts (key : InodeKey) (map : ShmInodeMap n) : StoreOp → Prop
  | .upsertChown k _ _ _ _ => k = key → ∀ i, ¬ (map.slot i).LiveFor key
  | .upsertInode k _ => k = key → ∀ i, ¬ (map.slot i).LiveFor key
  | .getInode _ | .removeInode _ => False

theorem publishes_storesOf (codec : XattrCodec) {op : StoreOp} (hop : Inserts key map op)
    (hmap : map.Reaches key) : Publishes key (storesOf codec op (map.probe op.key)) map := by
  have hfresh : op.key = key → ∀ j, ¬ (map.slot j).LiveFor key := by
    cases op with
    | getInode k | removeInode k => exact hop.elim
    | upsertChown k uid gid du dg => exact hop
    | upsertInode k inode => exact hop
  cases hp : map.probe op.key with
  | found i =>
      have hi := live_of_probe_eq_found hp
      have hkey : ¬ (map.slot i).LiveFor key := fun h => hfresh (h.key_eq hi) i h
      rw [← List.append_nil (storesOf codec op (.found i))]
      have hwithin : ∀ s ∈ storesOf codec op (.found i), s.Within i True := by
        refine within_storesOf_found codec fun k hk => ?_
        subst hk
        exact hop
      exact publishes_append hwithin (fun _ => trivial) hkey hmap id
  | vacant i =>
      cases op with
      | getInode k | removeInode k => exact hop.elim
      | upsertChown k uid gid du dg =>
          exact publishes_insertStores codec hp hmap hfresh _ _ 0 0 ∅
      | upsertInode k inode => exact publishes_insertStores codec hp hmap hfresh _ _ _ _ _
  | full =>
      cases op with
      | getInode k | removeInode k => exact hop.elim
      | upsertChown k uid gid du dg => exact hmap
      | upsertInode k inode => exact hmap

end Stores

end Pseudoroot
