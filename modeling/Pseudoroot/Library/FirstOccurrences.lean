import Mathlib

/-! # Elements in order of first occurrence

Elements are added to the end of a list one after the other, each unless it is there already.
What is added are the elements that the list misses, in the order in which they occur first. -/

namespace FirstOccurrences

variable {α : Type*} [BEq α] {base extra added added' : List α} {a : α}

/-- Add an element that is not there yet. -/
def push (l : List α) (a : α) : List α :=
  if l.contains a then l else l ++ [a]

/-- The elements that a list misses, each once, in order of first occurrence. -/
structure Missing (base extra added : List α) : Prop where
  mem_iff : ∀ {a}, a ∈ added ↔ a ∈ extra ∧ a ∉ base
  nodup : added.Nodup
  ordered : added.Pairwise fun a b => extra.idxOf a < extra.idxOf b

namespace Missing

theorem nil : Missing base [] [] := ⟨by simp, List.nodup_nil, List.Pairwise.nil⟩

/-- The missing elements and their order determine the list. -/
theorem unique (h : Missing base extra added) (h' : Missing base extra added') :
    added = added' := by
  have hperm : added.Perm added' :=
    (List.perm_ext_iff_of_nodup h.nodup h'.nodup).mpr fun _ => h.mem_iff.trans h'.mem_iff.symm
  exact hperm.eq_of_pairwise (fun _ _ _ _ hlt hgt => absurd hlt (Nat.lt_asymm hgt))
    h.ordered h'.ordered

theorem eq_nil_of_subset (h : Missing base extra added) (hsub : ∀ a ∈ extra, a ∈ base) :
    added = [] := by
  refine List.eq_nil_iff_forall_not_mem.mpr ?_
  intro a ha
  obtain ⟨hextra, hbase⟩ := h.mem_iff.mp ha
  exact hbase (hsub a hextra)

variable [LawfulBEq α]

theorem idxOf_lt_length_of_mem (h : Missing base extra added) (ha : a ∈ added) :
    extra.idxOf a < extra.length :=
  List.idxOf_lt_length_of_mem (h.mem_iff.mp ha).1

/-- A later element does not change where the others occur first. -/
theorem ordered_append_singleton (h : Missing base extra added) (a : α) :
    added.Pairwise fun b c => (extra ++ [a]).idxOf b < (extra ++ [a]).idxOf c := by
  refine h.ordered.imp_of_mem ?_
  intro b c hb hc hlt
  rwa [List.idxOf_append_of_mem (h.mem_iff.mp hb).1,
    List.idxOf_append_of_mem (h.mem_iff.mp hc).1]

theorem append_of_mem (h : Missing base extra added) (ha : a ∈ base ++ added) :
    Missing base (extra ++ [a]) added := by
  refine ⟨?_, h.nodup, h.ordered_append_singleton a⟩
  intro b
  rw [h.mem_iff, List.mem_append, List.mem_singleton]
  constructor
  · rintro ⟨hb, hbase⟩
    exact ⟨Or.inl hb, hbase⟩
  · rintro ⟨hb | rfl, hbase⟩
    · exact ⟨hb, hbase⟩
    · rcases List.mem_append.mp ha with hmem | hmem
      · exact absurd hmem hbase
      · exact h.mem_iff.mp hmem

theorem append_of_notMem (h : Missing base extra added) (ha : a ∉ base ++ added) :
    Missing base (extra ++ [a]) (added ++ [a]) := by
  obtain ⟨hbase, hadded⟩ := not_or.mp (mt List.mem_append.mpr ha)
  have hextra : a ∉ extra := fun hmem => hadded (h.mem_iff.mpr ⟨hmem, hbase⟩)
  refine ⟨?_, ?_, ?_⟩
  · intro b
    rw [List.mem_append, List.mem_append, List.mem_singleton, h.mem_iff]
    constructor
    · rintro (⟨hb, hb'⟩ | rfl)
      · exact ⟨Or.inl hb, hb'⟩
      · exact ⟨Or.inr rfl, hbase⟩
    · rintro ⟨hb | rfl, hb'⟩
      · exact Or.inl ⟨hb, hb'⟩
      · exact Or.inr rfl
  · exact List.nodup_append.mpr ⟨h.nodup, List.nodup_singleton a, by
      rintro b hb c hc rfl
      exact hadded (List.mem_singleton.mp hc ▸ hb)⟩
  · refine List.pairwise_append.mpr ⟨h.ordered_append_singleton a, List.pairwise_singleton _ a, ?_⟩
    intro b hb c hc
    obtain rfl := List.mem_singleton.mp hc
    rw [List.idxOf_append_of_mem (h.mem_iff.mp hb).1, List.idxOf_append_of_notMem hextra]
    exact Nat.lt_add_right _ (h.idxOf_lt_length_of_mem hb)

/-- Without repetitions the missing elements are what is left of the list. -/
theorem filter (h : extra.Nodup) :
    Missing base extra (extra.filter fun a => !base.contains a) := by
  have hordered : extra.Pairwise fun a b => extra.idxOf a < extra.idxOf b := by
    refine List.pairwise_iff_getElem.mpr ?_
    intro i j hi hj hij
    rwa [h.idxOf_getElem i hi, h.idxOf_getElem j hj]
  exact ⟨by simp, h.filter _, hordered.filter _⟩

end Missing

variable [LawfulBEq α]

theorem push_of_mem {l : List α} (h : a ∈ l) : push l a = l :=
  if_pos (List.contains_iff_mem.mpr h)

theorem push_of_notMem {l : List α} (h : a ∉ l) : push l a = l ++ [a] :=
  if_neg (mt List.contains_iff_mem.mp h)

/-- Pushing elements one after the other adds the missing ones. The induction is from the right:
the last element is compared with all that is there by then. -/
theorem foldl_push (base extra : List α) :
    ∃ added, extra.foldl push base = base ++ added ∧ Missing base extra added := by
  induction extra using List.reverseRecOn with
  | nil => exact ⟨[], (List.append_nil base).symm, Missing.nil⟩
  | append_singleton extra a ih =>
      obtain ⟨added, hfold, hmissing⟩ := ih
      rw [List.foldl_append, hfold, List.foldl_cons, List.foldl_nil]
      by_cases ha : a ∈ base ++ added
      · exact ⟨added, push_of_mem ha, hmissing.append_of_mem ha⟩
      · refine ⟨added ++ [a], ?_, hmissing.append_of_notMem ha⟩
        rw [push_of_notMem ha, List.append_assoc]

theorem mem_foldl_push : a ∈ extra.foldl push base ↔ a ∈ base ∨ a ∈ extra := by
  obtain ⟨added, hfold, hmissing⟩ := foldl_push base extra
  rw [hfold, List.mem_append, hmissing.mem_iff]
  by_cases ha : a ∈ base <;> simp [ha]

/-- Elements that are all there add nothing. -/
theorem foldl_push_of_subset (h : ∀ a ∈ extra, a ∈ base) : extra.foldl push base = base := by
  obtain ⟨added, hfold, hmissing⟩ := foldl_push base extra
  rw [hfold, hmissing.eq_nil_of_subset h, List.append_nil]

/-- What was pushed once is not pushed again. -/
theorem foldl_push_idem (base extra : List α) :
    extra.foldl push (extra.foldl push base) = extra.foldl push base :=
  foldl_push_of_subset fun _ ha => mem_foldl_push.mpr (Or.inr ha)

end FirstOccurrences
