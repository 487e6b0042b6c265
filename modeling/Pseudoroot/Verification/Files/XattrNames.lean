import Pseudoroot.Library.FirstOccurrences
import Pseudoroot.Model.Xattr

/-! # Names of extended attributes -/

namespace Pseudoroot

open Ownership

/-! ## Names as strings -/

theorem readCstr_asBytes (s : String) : readCstr (some (asBytes s)) = some s := by
  have hbytes : ByteArray.mk s.toByteArray.data.toList.toArray = s.toByteArray := rfl
  simp [readCstr, asBytes, hbytes, String.fromUTF8?, String.fromUTF8, s.isValidUTF8]

theorem readCstr_eq_some_iff {name : List UInt8} {s : String} :
    readCstr (some name) = some s ↔ asBytes s = name := by
  constructor
  · intro h
    have hs : String.fromUTF8? (ByteArray.mk name.toArray) = some s := h
    unfold String.fromUTF8? at hs
    split at hs
    · injection hs with hs
      rw [← hs]
      simp [asBytes, String.fromUTF8]
    · cases hs
  · rintro rfl
    exact readCstr_asBytes s

theorem asBytes_injective : Function.Injective asBytes := by
  intro s s' h
  have hread : some s = some s' := by rw [← readCstr_asBytes s, h, readCstr_asBytes s']
  exact Option.some.inj hread

/-! ## Names that are added -/

theorem foldl_pushName_eq (names : List (List UInt8)) (extra : List String) :
    extra.foldl pushName names = (extra.map asBytes).foldl FirstOccurrences.push names := by
  rw [List.foldl_map]
  rfl

/-- The names that two lists hold, merged. -/
theorem mem_foldl_pushName {names : List (List UInt8)} {extra : List String} {name : List UInt8} :
    name ∈ extra.foldl pushName names ↔ name ∈ names ∨ name ∈ extra.map asBytes := by
  rw [foldl_pushName_eq]
  exact FirstOccurrences.mem_foldl_push

/-- Each name that is not there yet is added, in its order. -/
theorem foldl_pushName_eq_merge (names : List (List UInt8)) {extra : List String}
    (h : extra.Nodup) : extra.foldl pushName names = NulList.merge names (extra.map asBytes) := by
  obtain ⟨added, hfold, hmissing⟩ := FirstOccurrences.foldl_push names (extra.map asBytes)
  have hrest := hmissing.unique (.filter (h.map asBytes_injective))
  rw [foldl_pushName_eq, hfold, hrest, NulList.merge]

theorem isName_of_mem_foldl_pushName {names : List (List UInt8)} {extra : List String}
    (hnames : ∀ name ∈ names, NulList.IsName name)
    (hextra : ∀ s ∈ extra, NulList.IsName (asBytes s)) :
    ∀ name ∈ extra.foldl pushName names, NulList.IsName name := by
  intro name hname
  rcases mem_foldl_pushName.mp hname with h | h
  · exact hnames name h
  · obtain ⟨s, hs, rfl⟩ := List.mem_map.mp h
    exact hextra s hs

theorem length_join_append (names names' : List (List UInt8)) :
    (NulList.join (names ++ names')).length =
      (NulList.join names).length + (NulList.join names').length := by
  rw [NulList.join_append, List.length_append]

theorem length_join_foldl_pushName_le (names : List (List UInt8)) (extra : List String) :
    (NulList.join (extra.foldl pushName names)).length ≤
      (NulList.join (names ++ extra.map asBytes)).length := by
  obtain ⟨added, hfold, hmissing⟩ := FirstOccurrences.foldl_push names (extra.map asBytes)
  have hadded : (NulList.join added).length ≤ (NulList.join (extra.map asBytes)).length :=
    NulList.length_join_le_of_subset hmissing.nodup fun name hname =>
      (hmissing.mem_iff.mp hname).1
  rw [foldl_pushName_eq, hfold, length_join_append, length_join_append]
  exact Nat.add_le_add_left hadded _

/-! ## Merged lists -/

theorem mergeXattrLists_eq (realList : List UInt8) {extra : List String} (h : extra.Nodup) :
    mergeXattrLists realList extra =
      NulList.join (NulList.merge (NulList.split realList) (extra.map asBytes)) := by
  rw [mergeXattrLists, foldl_pushName_eq_merge _ h]

/-- A merged list is made of names, whatever the real list is made of. -/
theorem isName_of_mem_merged (realList : List UInt8) {extra : List String}
    (hextra : ∀ s ∈ extra, NulList.IsName (asBytes s)) :
    ∀ name ∈ extra.foldl pushName (NulList.split realList), NulList.IsName name :=
  isName_of_mem_foldl_pushName (fun _ => NulList.isName_of_mem_split) hextra

theorem split_mergeXattrLists (realList : List UInt8) {extra : List String}
    (hextra : ∀ s ∈ extra, NulList.IsName (asBytes s)) :
    NulList.split (mergeXattrLists realList extra) =
      extra.foldl pushName (NulList.split realList) :=
  NulList.split_join (isName_of_mem_merged realList hextra)

/-- Merging the same names again changes nothing. -/
theorem mergeXattrLists_idem (realList : List UInt8) {extra : List String}
    (hextra : ∀ s ∈ extra, NulList.IsName (asBytes s)) :
    mergeXattrLists (mergeXattrLists realList extra) extra = mergeXattrLists realList extra := by
  have hidem : extra.foldl pushName (extra.foldl pushName (NulList.split realList)) =
      extra.foldl pushName (NulList.split realList) := by
    rw [foldl_pushName_eq, foldl_pushName_eq]
    exact FirstOccurrences.foldl_push_idem _ _
  rw [mergeXattrLists, split_mergeXattrLists realList hextra, hidem, ← mergeXattrLists]

/-- Cut at its zeros, the merged list has the non-empty parts of the real one in their order, then
each extra name that is not among them, once and in order of first occurrence. It is empty or ends
in a zero, so that nothing follows the last name, and merging the same names again changes
nothing. -/
theorem mergeXattrLists_appends_missing (realList : List UInt8) {extra : List String}
    (hextra : ∀ s ∈ extra, NulList.IsName (asBytes s)) :
    let merged := mergeXattrLists realList extra
    (∃ added,
      FirstOccurrences.Missing (NulList.split realList) (extra.map asBytes) added ∧
        NulList.split merged = NulList.split realList ++ added ∧
        merged.splitOn 0 = NulList.split realList ++ added ++ [[]]) ∧
      (merged = [] ∨ merged.getLast? = some 0) ∧
      mergeXattrLists merged extra = merged := by
  intro merged
  obtain ⟨added, hfold, hmissing⟩ :=
    FirstOccurrences.foldl_push (NulList.split realList) (extra.map asBytes)
  rw [← foldl_pushName_eq] at hfold
  refine ⟨⟨added, hmissing, ?_, ?_⟩, NulList.join_eq_nil_or_getLast? _,
    mergeXattrLists_idem realList hextra⟩
  · rw [split_mergeXattrLists realList hextra, hfold]
  · have hcut : merged.splitOn 0 = extra.foldl pushName (NulList.split realList) ++ [[]] :=
      NulList.splitOn_join (isName_of_mem_merged realList hextra)
    rw [hcut, hfold]

/-- A real list with an empty part and without a final zero, and a name given twice. -/
theorem mergeXattrLists_appends_missing_repeated :
    let realList := asBytes "user.a" ++ [0, 0] ++ asBytes "user.b"
    let extra := ["user.c", "user.a", "user.c"]
    let merged := mergeXattrLists realList extra
    merged = NulList.join [asBytes "user.a", asBytes "user.b", asBytes "user.c"] ∧
      (∃ added,
        FirstOccurrences.Missing (NulList.split realList) (extra.map asBytes) added ∧
          NulList.split merged = NulList.split realList ++ added ∧
          merged.splitOn 0 = NulList.split realList ++ added ++ [[]]) ∧
        (merged = [] ∨ merged.getLast? = some 0) ∧
        mergeXattrLists merged extra = merged :=
  ⟨by decide +kernel, mergeXattrLists_appends_missing _ (by decide +kernel)⟩

end Pseudoroot
