import Mathlib

/-! # Lists of names as bytes

Names are non-empty byte strings without a zero. A list of them is laid out one after the
other, each with a zero at its end. -/

namespace NulList

/-- Each name followed by a zero. -/
def join (names : List (List UInt8)) : List UInt8 :=
  names.flatMap fun name => name ++ [0]

/-- The names between zeros, without the empty ones. -/
def split (blob : List UInt8) : List (List UInt8) :=
  (blob.splitOn 0).filter fun name => !name.isEmpty

structure IsName (name : List UInt8) : Prop where
  ne_nil : name ≠ []
  zero_notMem : 0 ∉ name

instance (name : List UInt8) : Decidable (IsName name) :=
  decidable_of_iff (name ≠ [] ∧ 0 ∉ name)
    ⟨fun h => ⟨h.1, h.2⟩, fun h => ⟨h.ne_nil, h.zero_notMem⟩⟩

/-- The list is cut after each of its names, and nothing is left behind the last zero. -/
theorem splitOn_join {names : List (List UInt8)} (h : ∀ name ∈ names, IsName name) :
    (join names).splitOn 0 = names ++ [[]] := by
  induction names with
  | nil => rfl
  | cons name names ih =>
      have hrest := ih fun name' hname => h name' (List.mem_cons_of_mem _ hname)
      have hzero : 0 ∉ name := (h name List.mem_cons_self).zero_notMem
      have hjoin : join (name :: names) = name ++ 0 :: join names := by simp [join]
      rw [hjoin, List.splitOn_append_cons_self_of_not_mem hzero, hrest, List.cons_append]

theorem split_join {names : List (List UInt8)} (h : ∀ name ∈ names, IsName name) :
    split (join names) = names := by
  have hnames : ∀ name ∈ names, (!name.isEmpty) = true := by
    intro name hname
    simpa using (h name hname).ne_nil
  rw [split, splitOn_join h, List.filter_append, List.filter_eq_self.mpr hnames]
  simp

/-- No part between zeros has a zero. -/
theorem zero_notMem_of_mem_splitOn {blob part : List UInt8} (h : part ∈ blob.splitOn 0) :
    0 ∉ part := by
  induction blob generalizing part with
  | nil =>
      rw [List.splitOn_nil, List.mem_singleton] at h
      simp [h]
  | cons byte blob ih =>
      rw [List.splitOn_cons_eq_if_modifyHead] at h
      split at h
      · rcases List.mem_cons.mp h with rfl | hrest
        · exact List.not_mem_nil
        · exact ih hrest
      · rename_i hbyte
        -- the byte belongs to the first part of the rest
        obtain ⟨first, parts, hparts⟩ := List.exists_cons_of_ne_nil (List.splitOn_ne_nil 0 blob)
        rw [hparts, List.modifyHead_cons] at h
        rcases List.mem_cons.mp h with rfl | hrest
        · have hfirst : 0 ∉ first := ih (hparts ▸ List.mem_cons_self)
          have hne : (0 : UInt8) ≠ byte := fun heq => hbyte (by simp [← heq])
          exact List.not_mem_cons_of_ne_of_not_mem hne hfirst
        · exact ih (hparts ▸ List.mem_cons_of_mem _ hrest)

theorem isName_of_mem_split {blob name : List UInt8} (h : name ∈ split blob) : IsName name := by
  obtain ⟨hpart, hne⟩ := List.mem_filter.mp h
  exact ⟨by simpa using hne, zero_notMem_of_mem_splitOn hpart⟩

/-- The bytes of a list are none, or end in a zero. -/
theorem join_eq_nil_or_getLast? (names : List (List UInt8)) :
    join names = [] ∨ (join names).getLast? = some 0 := by
  cases names using List.reverseRecOn with
  | nil => exact Or.inl rfl
  | append_singleton names name => exact Or.inr (by simp [join])

theorem join_append (names names' : List (List UInt8)) :
    join (names ++ names') = join names ++ join names' :=
  List.flatMap_append

theorem length_join (names : List (List UInt8)) :
    (join names).length = (names.map fun name => name.length + 1).sum := by
  simp [join, List.length_flatMap]

theorem length_join_eq_of_perm {names names' : List (List UInt8)} (h : names.Perm names') :
    (join names).length = (join names').length := by
  rw [length_join, length_join]
  exact (h.map _).sum_eq

/-- Names that are among others, each once, have no more bytes than those. -/
theorem length_join_le_of_subset {names names' : List (List UInt8)} (hnodup : names.Nodup)
    (hsub : names ⊆ names') : (join names).length ≤ (join names').length := by
  obtain ⟨part, hperm, hpart⟩ := hnodup.subperm hsub
  rw [← length_join_eq_of_perm hperm, length_join, length_join]
  exact (hpart.map _).sum_le_sum (by simp)

theorem length_join_eq_zero {names : List (List UInt8)} :
    (join names).length = 0 ↔ names = [] := by
  cases names with
  | nil => simp [join]
  | cons name names => simp [join]

/-- The names of one list, then those that only the other one has. -/
def merge (names extra : List (List UInt8)) : List (List UInt8) :=
  names ++ extra.filter fun name => !names.contains name

theorem merge_eq (names extra : List (List UInt8)) :
    merge names extra = names ++ extra.filter (· ∉ names) := by
  simp [merge]

theorem mem_merge {names extra : List (List UInt8)} {name : List UInt8} :
    name ∈ merge names extra ↔ name ∈ names ∨ name ∈ extra := by
  by_cases h : name ∈ names <;> simp [merge, h]

theorem nodup_merge {names extra : List (List UInt8)} (hnames : names.Nodup)
    (hextra : extra.Nodup) : (merge names extra).Nodup := by
  rw [merge_eq]
  refine List.nodup_append.mpr ⟨hnames, hextra.filter _, ?_⟩
  rintro name hname _ hother rfl
  have hnot : name ∉ names := by simpa using List.of_mem_filter hother
  exact hnot hname

/-- The two lists have the same common part, in some order. -/
theorem filter_mem_perm {names extra : List (List UInt8)} (hnames : names.Nodup)
    (hextra : extra.Nodup) : (extra.filter (· ∈ names)).Perm (names.filter (· ∈ extra)) := by
  refine (List.perm_ext_iff_of_nodup (hextra.filter _) (hnames.filter _)).mpr fun name => ?_
  simp [and_comm]

/-- The bytes of a list are those of a part of it and of the rest. -/
theorem length_join_filter_add (names : List (List UInt8)) (p : List UInt8 → Prop)
    [DecidablePred p] :
    (join names).length = (join (names.filter (p ·))).length +
      (join (names.filter (¬ p ·))).length := by
  have hparts : (names.filter (p ·) ++ names.filter fun name => !decide (p name)).Perm names :=
    List.filter_append_perm _ names
  rw [← length_join_eq_of_perm hparts, join_append, List.length_append]
  simp

/-- A merged list has the bytes of one list and of the names that only the other one has. -/
theorem length_join_merge {names extra : List (List UInt8)} (hnames : names.Nodup)
    (hextra : extra.Nodup) :
    (join (merge names extra)).length =
      (join extra).length + (join (names.filter (· ∉ extra))).length := by
  have hcommon := length_join_eq_of_perm (filter_mem_perm hnames hextra)
  have hsplitNames := length_join_filter_add names (· ∈ extra)
  have hsplitExtra := length_join_filter_add extra (· ∈ names)
  rw [merge_eq, join_append, List.length_append]
  omega

end NulList
