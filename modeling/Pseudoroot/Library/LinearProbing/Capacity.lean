import Pseudoroot.Library.LinearProbing.Refinement
import Mathlib.Algebra.BigOperators.Group.Finset.Piecewise
import Mathlib.Data.Finset.Max
import Mathlib.Data.Nat.Find
import Mathlib.Order.Fin.Basic

/-! # Fewer keys than cells never exhaust the empty cells

Tombstones are reused, but only by keys whose path crosses them, so counting live
cells does not bound the cells ever used. The proof fixes one cell that no history
over the given keys can reach: the windows ending there hold too few keys. -/

namespace LinearProbing

variable {κ ν : Type*} {n : ℕ}

/-! ## Distances to a fixed cell -/

theorem distance_of_le {s i : Fin n} (h : s ≤ i) : distance s i = i - s := by
  have hs := s.isLt
  have hi := i.isLt
  have hle : (s : ℕ) ≤ i := h
  have hsum : (i : ℕ) + (n - s) = (i - s) + n := by omega
  rw [distance, hsum, Nat.add_mod_right, Nat.mod_eq_of_lt (by omega)]

theorem distance_of_lt {s i : Fin n} (h : i < s) : distance s i = i + (n - s) := by
  have hlt : (i : ℕ) < s := h
  have hs := s.isLt
  rw [distance, Nat.mod_eq_of_lt (by omega)]

/-- A cell met before `e` splits the way to `e`. -/
theorem distance_add_distance {s i e : Fin n} (h : distance s i ≤ distance s e) :
    distance s i + distance i e = distance s e := by
  have hs := s.isLt
  have hi := i.isLt
  have he := e.isLt
  rcases le_or_gt s i with hsi | hsi <;> rcases le_or_gt s e with hse | hse <;>
    rcases le_or_gt i e with hie | hie <;>
    simp only [distance_of_le, distance_of_lt, *] at h ⊢ <;>
    simp only [Fin.le_def, Fin.lt_def] at hsi hse hie <;> omega

theorem distance_advance_left {s e : Fin n} {c : ℕ} (h : c ≤ distance s e) :
    distance (advance s c) e = distance s e - c := by
  have hc : distance s (advance s c) = c :=
    distance_advance s (lt_of_le_of_lt h (distance_lt s e))
  have hsum := distance_add_distance (s := s) (i := advance s c) (e := e) (by rw [hc]; exact h)
  omega

theorem distance_right_injective {i j e : Fin n} (h : distance i e = distance j e) : i = j := by
  have hi := i.isLt
  have hj := j.isLt
  have he := e.isLt
  apply Fin.ext
  rcases le_or_gt i e with hie | hie <;> rcases le_or_gt j e with hje | hje <;>
    simp only [distance_of_le, distance_of_lt, *] at h <;>
    simp only [Fin.le_def, Fin.lt_def] at hie hje <;> omega

/-! ## A cell whose windows are underfull -/

/-- The keys whose hash lies between `a` and `b` steps before `e`. -/
def window (hash : κ → Fin n) (K : Finset κ) (e : Fin n) (a b : ℕ) : Finset κ :=
  K.filter fun k => a ≤ distance (hash k) e ∧ distance (hash k) e < b

/-- The keys that hash below `j`. -/
private def below (hash : κ → Fin n) (K : Finset κ) (j : ℕ) : Finset κ :=
  K.filter fun k => (hash k : ℕ) < j

private theorem card_window_of_le (hash : κ → Fin n) (K : Finset κ) (e : Fin n) {d : ℕ}
    (hd : d ≤ e + 1) :
    (window hash K e 0 d).card + (below hash K (e + 1 - d)).card =
      (below hash K (e + 1)).card := by
  simp only [window, below, Finset.card_filter]
  rw [← Finset.sum_add_distrib]
  refine Finset.sum_congr rfl fun k _ => ?_
  have hk := (hash k).isLt
  have he := e.isLt
  rcases le_or_gt (hash k) e with h | h
  · rw [distance_of_le h]
    simp only [Fin.le_def] at h
    split_ifs <;> omega
  · rw [distance_of_lt h]
    simp only [Fin.lt_def] at h
    split_ifs <;> omega

private theorem card_window_of_lt (hash : κ → Fin n) (K : Finset κ) (e : Fin n) {d : ℕ}
    (hd : (e : ℕ) + 1 < d) (hdn : d ≤ n) :
    (window hash K e 0 d).card + (below hash K (n - (d - (e + 1)))).card =
      (below hash K (e + 1)).card + K.card := by
  rw [Finset.card_eq_sum_ones K]
  simp only [window, below, Finset.card_filter]
  rw [← Finset.sum_add_distrib, ← Finset.sum_add_distrib]
  refine Finset.sum_congr rfl fun k _ => ?_
  have hk := (hash k).isLt
  have he := e.isLt
  rcases le_or_gt (hash k) e with h | h
  · rw [distance_of_le h]
    simp only [Fin.le_def] at h
    split_ifs <;> omega
  · rw [distance_of_lt h]
    simp only [Fin.lt_def] at h
    split_ifs <;> omega

/-- With fewer keys than cells, some cell ends only underfull windows: every window
of `d` cells ending there receives fewer than `d` keys. The cell follows the first
place where keys minus cells, counted from the left, is least. -/
theorem exists_underfull (hash : κ → Fin n) (K : Finset κ) (hK : K.card < n) :
    ∃ e : Fin n, ∀ d, 0 < d → d ≤ n → (window hash K e 0 d).card < d := by
  let level : ℕ → ℤ := fun j => (below hash K j).card - j
  have hlast : below hash K n = K := by
    refine Finset.filter_true_of_mem fun k _ => (hash k).isLt
  have hmin : ∃ j, j ≤ n ∧ ∀ j' ≤ n, level j ≤ level j' := by
    obtain ⟨j, hj, hle⟩ := Finset.exists_min_image (Finset.range (n + 1)) level ⟨0, by simp⟩
    refine ⟨j, by simpa [Nat.lt_succ_iff] using hj, fun j' hj' => hle j' ?_⟩
    simpa [Nat.lt_succ_iff] using hj'
  classical
  obtain ⟨hj, hle⟩ := Nat.find_spec hmin
  have hfirst : ∀ j' < Nat.find hmin, level (Nat.find hmin) < level j' := by
    intro j' hlt
    by_contra hge
    refine Nat.find_min hmin hlt ⟨by omega, fun m hm => ?_⟩
    exact (not_lt.mp hge).trans (hle m hm)
  have hzero : level 0 = 0 := by simp [level, below]
  have hn : level n < 0 := by simp only [level, hlast]; omega
  have hpos : Nat.find hmin ≠ 0 := by
    intro h0
    have h := hle n le_rfl
    rw [h0, hzero] at h
    omega
  obtain ⟨e, he⟩ := Nat.exists_eq_succ_of_ne_zero hpos
  rw [he] at hj hle hfirst
  refine ⟨⟨e, by omega⟩, fun d hd hdn => ?_⟩
  rcases le_or_gt d (e + 1) with hde | hde
  · have hcount := card_window_of_le hash K ⟨e, by omega⟩ hde
    have hlevel := hfirst (e + 1 - d) (by omega)
    simp only [level, Nat.succ_eq_add_one] at hlevel
    simp only at hcount
    omega
  · have hcount := card_window_of_lt hash K ⟨e, by omega⟩ hde hdn
    have hlevel := hle (n - (d - (e + 1))) (by omega)
    simp only [level, hlast, Nat.succ_eq_add_one] at hlevel hn
    simp only at hcount
    omega

/-! ## The reserved cell stays empty -/

/-- The keys that hash at least `d` steps before `e` but live fewer than `d` steps
before it. -/
noncomputable def crossing (hash : κ → Fin n) (K : Finset κ) (e : Fin n) (t : Table n κ ν)
    (d : ℕ) : Finset κ := by
  classical
  exact K.filter fun k => d ≤ distance (hash k) e ∧ ∃ i v, distance i e < d ∧ t i = .live k v

theorem mem_crossing {hash : κ → Fin n} {K : Finset κ} {e : Fin n} {t : Table n κ ν} {d : ℕ}
    {k : κ} : k ∈ crossing hash K e t d ↔
      k ∈ K ∧ d ≤ distance (hash k) e ∧ ∃ i v, distance i e < d ∧ t i = .live k v := by
  classical
  simp [crossing]

/-- Cell `e` is empty, and at every boundary the crossing keys are paid for by an
overfull window before the boundary. -/
structure Reserved (hash : κ → Fin n) (K : Finset κ) (e : Fin n) (t : Table n κ ν) : Prop where
  wellFormed : WellFormed hash t
  keys : ∀ {i k v}, t i = .live k v → k ∈ K
  hole : t e = .empty
  paid : ∀ d ≤ n, ∃ d', d ≤ d' ∧ d' ≤ n ∧
    (crossing hash K e t d).card + (d' - d) ≤ (window hash K e d d').card

section Reserved

variable {hash : κ → Fin n} {K : Finset κ} {e : Fin n} {t : Table n κ ν}

theorem reserved_empty (hash : κ → Fin n) (K : Finset κ) (e : Fin n) :
    Reserved hash K e (fun _ => .empty : Table n κ ν) := by
  refine ⟨wellFormed_empty hash, fun h => (by cases h), rfl, fun d hd => ⟨d, le_rfl, hd, ?_⟩⟩
  have hnone : crossing hash K e (fun _ => .empty : Table n κ ν) d = ∅ := by
    apply Finset.eq_empty_of_forall_notMem
    intro k hk
    obtain ⟨_, _, i, v, _, hi⟩ := mem_crossing.mp hk
    cases hi
  simp [hnone]

/-- No path crosses the empty cell, so a live key sits between its hash and `e`. -/
theorem Reserved.distance_add (h : Reserved hash K e t) {i : Fin n} {k : κ} {v : ν}
    (hi : t i = .live k v) : distance (hash k) i + distance i e = distance (hash k) e := by
  apply distance_add_distance
  by_contra hgt
  refine h.wellFormed.reachable hi (distance (hash k) e) (by omega) ?_
  rw [advance_distance]
  exact h.hole

/-- The union of adjacent windows. -/
theorem card_window_add (hash : κ → Fin n) (K : Finset κ) (e : Fin n) (a b c : ℕ) (hab : a ≤ b)
    (hbc : b ≤ c) :
    (window hash K e a b).card + (window hash K e b c).card = (window hash K e a c).card := by
  simp only [window, Finset.card_filter]
  rw [← Finset.sum_add_distrib]
  refine Finset.sum_congr rfl fun k _ => ?_
  split_ifs <;> omega

theorem card_window_le (hash : κ → Fin n) (K : Finset κ) (e : Fin n) (a b : ℕ)
    (hab : a ≤ b) :
    (window hash K e a b).card ≤ (window hash K e 0 b).card := by
  have h := card_window_add hash K e 0 a b (Nat.zero_le a) hab
  omega

/-- The longest way to `e` begins right after it. -/
theorem distance_next_self (e : Fin n) : distance (next e) e = n - 1 := by
  have he := e.isLt
  rcases Nat.lt_or_ge ((e : ℕ) + 1) n with h | h
  · have hlt : e < next e := by simp [Fin.lt_def, next, Nat.mod_eq_of_lt h]
    rw [distance_of_lt hlt]
    simp only [next, Nat.mod_eq_of_lt h]
    omega
  · have hn : (e : ℕ) + 1 = n := by omega
    have hle : next e ≤ e := by simp [Fin.le_def, next, hn]
    rw [distance_of_le hle]
    simp only [next, hn, Nat.mod_self]
    omega

private theorem exists_distance_eq (e : Fin n) {b : ℕ} (hb : b < n) :
    ∃ i : Fin n, distance i e = b := by
  refine ⟨advance (next e) (n - 1 - b), ?_⟩
  rw [distance_advance_left (by rw [distance_next_self]; omega), distance_next_self]
  omega

/-- The keys that live from `d` steps up to `r` steps before `e`. -/
noncomputable def held (K : Finset κ) (e : Fin n) (t : Table n κ ν) (d r : ℕ) : Finset κ := by
  classical
  exact K.filter fun k => ∃ i v, d ≤ distance i e ∧ distance i e < r ∧ t i = .live k v

theorem mem_held {d r : ℕ} {k : κ} : k ∈ held K e t d r ↔
    k ∈ K ∧ ∃ i v, d ≤ distance i e ∧ distance i e < r ∧ t i = .live k v := by
  classical
  simp [held]

/-- A run of live cells holds a key in every cell, each key once. -/
theorem Reserved.le_card_held [Nonempty κ] (h : Reserved hash K e t) {d r : ℕ} (hrn : r ≤ n)
    (hlive : ∀ i, d ≤ distance i e → distance i e < r → ∃ k v, t i = .live k v) :
    r - d ≤ (held K e t d r).card := by
  classical
  have hpos : ∀ b ∈ Finset.range (r - d), ∃ x ∈ held K e t d r, ∃ i v, distance i e = d + b ∧
      t i = .live x v := by
    intro b hb
    simp only [Finset.mem_range] at hb
    obtain ⟨i, hi⟩ := exists_distance_eq e (b := d + b) (by omega)
    obtain ⟨x, v, hx⟩ := hlive i (by omega) (by omega)
    exact ⟨x, mem_held.mpr ⟨h.keys hx, i, v, by omega, by omega, hx⟩, i, v, hi, hx⟩
  choose! f hf hfi using hpos
  have hinj : Set.InjOn f (Finset.range (r - d) : Set ℕ) := by
    intro a ha b hb hab
    obtain ⟨i, v, hi, hiv⟩ := hfi a (Finset.mem_coe.mp ha)
    obtain ⟨j, w, hj, hjw⟩ := hfi b (Finset.mem_coe.mp hb)
    rw [hab] at hiv
    have hij := h.wellFormed.unique hiv hjw
    subst hij
    omega
  calc
    r - d = (Finset.range (r - d)).card := (Finset.card_range _).symm
    _ = ((Finset.range (r - d)).image f).card := (Finset.card_image_of_injOn hinj).symm
    _ ≤ (held K e t d r).card := by
      apply Finset.card_le_card
      intro x hx
      obtain ⟨b, hb, rfl⟩ := Finset.mem_image.mp hx
      exact hf b hb

theorem Reserved.disjoint_crossing_held (h : Reserved hash K e t) (d r : ℕ) :
    Disjoint (crossing hash K e t d) (held K e t d r) := by
  rw [Finset.disjoint_left]
  intro x hx hx'
  obtain ⟨_, _, i, v, hi, hiv⟩ := mem_crossing.mp hx
  obtain ⟨_, j, w, hj, _, hjw⟩ := mem_held.mp hx'
  have hij := h.wellFormed.unique hiv hjw
  subst hij
  omega

/-- A key that crosses the boundary `d`, or lives between `d` and `r`, hashes between the two or
crosses `r`. -/
theorem Reserved.mem_window_or_crossing [DecidableEq κ] (h : Reserved hash K e t) {d r : ℕ}
    (hdr : d ≤ r) {x : κ} (hx : x ∈ crossing hash K e t d ∪ held K e t d r) :
    x ∈ window hash K e d r ∪ crossing hash K e t r := by
  -- Every one of these keys lives at most `r` steps before `e`.
  obtain ⟨hxK, hxd, hxlive⟩ : x ∈ K ∧ d ≤ distance (hash x) e ∧
      ∃ i v, distance i e < r ∧ t i = .live x v := by
    rcases Finset.mem_union.mp hx with hx | hx
    · obtain ⟨hxK, hxd, i, v, hi, hiv⟩ := mem_crossing.mp hx
      exact ⟨hxK, hxd, i, v, by omega, hiv⟩
    · obtain ⟨hxK, i, v, hdi, hir, hiv⟩ := mem_held.mp hx
      have hadd := h.distance_add hiv
      exact ⟨hxK, by omega, i, v, hir, hiv⟩
  rcases Nat.lt_or_ge (distance (hash x) e) r with hxr | hxr
  · refine Finset.mem_union_left _ ?_
    simp only [window, Finset.mem_filter]
    exact ⟨hxK, hxd, hxr⟩
  · exact Finset.mem_union_right _ (mem_crossing.mpr ⟨hxK, hxr, hxlive⟩)

/-- A run of live cells that begins `r₀` steps or more before `e` and ends `d` steps
before it leaves room in the windows for one more key `k` that hashes into the run:
the run and the crossing keys are distinct keys of the windows before the boundary. -/
theorem Reserved.paid_succ (h : Reserved hash K e t) {k : κ} (hk : k ∈ K)
    (hfresh : ∀ i v, t i ≠ .live k v) {d : ℕ} (hd : d ≤ distance (hash k) e)
    (hrun : ∀ i, d ≤ distance i e → distance i e ≤ distance (hash k) e →
      ∃ k' v, t i = .live k' v) :
    ∃ d', d ≤ d' ∧ d' ≤ n ∧
      (crossing hash K e t d).card + 1 + (d' - d) ≤ (window hash K e d d').card := by
  classical
  let Run : ℕ → Prop := fun r =>
    d ≤ r ∧ r ≤ n ∧ ∀ i, d ≤ distance i e → distance i e < r → ∃ k' v, t i = .live k' v
  have hDn := distance_lt (hash k) e
  have hstart : Run (distance (hash k) e + 1) :=
    ⟨by omega, hDn, fun i hid hir => hrun i hid (by omega)⟩
  -- The longest run of live cells that ends at the boundary.
  obtain ⟨r, hr, hmax⟩ : ∃ r, Run r ∧ ∀ r', Run r' → r' ≤ r := by
    refine ⟨Nat.findGreatest Run n, Nat.findGreatest_spec hDn hstart, fun r' hr' => ?_⟩
    exact Nat.le_findGreatest hr'.2.1 hr'
  obtain ⟨hdr, hrn, hlive⟩ := hr
  have hkr : distance (hash k) e < r := hmax _ hstart
  obtain ⟨d', hrd', hd'n, hpaid⟩ := h.paid r hrn
  refine ⟨d', hdr.trans hrd', hd'n, ?_⟩
  have : Nonempty κ := ⟨k⟩
  have hheld := h.le_card_held hrn hlive
  have hknot : k ∉ crossing hash K e t d ∪ held K e t d r := by
    intro hmem
    rcases Finset.mem_union.mp hmem with hx | hx
    · obtain ⟨_, _, i, v, _, hiv⟩ := mem_crossing.mp hx
      exact hfresh i v hiv
    · obtain ⟨_, i, v, _, _, hiv⟩ := mem_held.mp hx
      exact hfresh i v hiv
  have hsub : insert k (crossing hash K e t d ∪ held K e t d r) ⊆
      window hash K e d r ∪ crossing hash K e t r := by
    intro x hx
    rcases Finset.mem_insert.mp hx with rfl | hx
    · refine Finset.mem_union_left _ ?_
      simp only [window, Finset.mem_filter]
      exact ⟨hk, hd, hkr⟩
    · exact h.mem_window_or_crossing hdr hx
  have hcard := (Finset.card_le_card hsub).trans (Finset.card_union_le _ _)
  rw [Finset.card_insert_of_notMem hknot,
    Finset.card_union_of_disjoint (h.disjoint_crossing_held d r)] at hcard
  have hwindow := card_window_add hash K e d r d' hdr hrd'
  omega

/-! ## Preservation -/

/-- Rewriting a cell so that no new key crosses any boundary keeps the reservation. -/
theorem Reserved.of_crossing_subset {t' : Table n κ ν} (h : Reserved hash K e t)
    (hwf : WellFormed hash t') (hkeys : ∀ {i k v}, t' i = .live k v → k ∈ K)
    (hhole : t' e = .empty) (hsub : ∀ d, crossing hash K e t' d ⊆ crossing hash K e t d) :
    Reserved hash K e t' := by
  refine ⟨hwf, hkeys, hhole, ?_⟩
  intro d hd
  obtain ⟨d', hdd', hd'n, hpaid⟩ := h.paid d hd
  have hcard := Finset.card_le_card (hsub d)
  exact ⟨d', hdd', hd'n, by omega⟩

theorem Reserved.erase [DecidableEq κ] (h : Reserved hash K e t) (k : κ) :
    Reserved hash K e (erase hash t k) := by
  have hlive : ∀ {i x v}, LinearProbing.erase hash t k i = .live x v → t i = .live x v := by
    intro i x v hi
    cases hp : probe t (hash k) k with
    | found j =>
        rw [erase_of_found hp] at hi
        by_cases hij : i = j
        · subst hij
          simp at hi
        · rwa [Function.update_of_ne hij] at hi
    | vacant j => rwa [erase_of_vacant hp] at hi
    | full => rwa [erase_of_full hp] at hi
  refine h.of_crossing_subset (h.wellFormed.erase k) (fun hi => h.keys (hlive hi))
    (erase_eq_empty_iff.mpr h.hole) ?_
  intro d x hx
  obtain ⟨hxK, hxd, i, v, hi, hiv⟩ := mem_crossing.mp hx
  exact mem_crossing.mpr ⟨hxK, hxd, i, v, hi, hlive hiv⟩

/-- An update in place moves no key. -/
theorem Reserved.overwrite (h : Reserved hash K e t) {i : Fin n} {k : κ} {v : ν}
    (hi : t i = .live k v) (w : ν)
    (hwf : WellFormed hash (Function.update t i (.live k w))) :
    Reserved hash K e (Function.update t i (.live k w)) := by
  have hlive : ∀ {j x u}, Function.update t i (.live k w) j = .live x u →
      ∃ u', t j = .live x u' := by
    intro j x u hj
    by_cases hji : j = i
    · subst hji
      rw [Function.update_self] at hj
      cases hj
      exact ⟨v, hi⟩
    · rw [Function.update_of_ne hji] at hj
      exact ⟨u, hj⟩
  have hei : e ≠ i := by
    rintro rfl
    rw [h.hole] at hi
    cases hi
  refine h.of_crossing_subset hwf ?_ (by rw [Function.update_of_ne hei, h.hole]) ?_
  · intro j x u hj
    obtain ⟨u', hj'⟩ := hlive hj
    exact h.keys hj'
  · intro d x hx
    obtain ⟨hxK, hxd, j, u, hj, hju⟩ := mem_crossing.mp hx
    obtain ⟨u', hju'⟩ := hlive hju
    exact mem_crossing.mpr ⟨hxK, hxd, j, u', hj, hju'⟩

/-- The cells that an insertion walks over form a run of live cells that ends right
before the cell it takes. -/
theorem live_run_of_probe_eq_vacant [DecidableEq κ] {k : κ} {i : Fin n}
    (hp : probe t (hash k) k = .vacant i) (hi : distance (hash k) i ≤ distance (hash k) e) :
    ∀ j, distance i e < distance j e → distance j e ≤ distance (hash k) e →
      ∃ k' v, t j = .live k' v := by
  intro j hij hjk
  have hs := probe_spec t (hash k) k
  rw [hp] at hs
  cases hs with
  | vacant c d hcd hd hend hpass hfree hlive =>
      have hc := distance_advance (hash k) (lt_of_le_of_lt hcd hd)
      rw [hc] at hi
      rw [distance_advance_left hi] at hij
      -- Both ends of the walk are known, so the cell is a step of it.
      have hj : advance (hash k) (distance (hash k) e - distance j e) = j := by
        have hdist := distance_advance_left (s := hash k) (e := e)
          (c := distance (hash k) e - distance j e) (by omega)
        have heq : distance (advance (hash k) (distance (hash k) e - distance j e)) e =
            distance j e := by omega
        by_contra hne
        have hinj := distance_right_injective heq
        exact hne hinj
      obtain ⟨k', v, hv⟩ := hlive (distance (hash k) e - distance j e) (by omega)
      exact ⟨k', v, by rwa [hj] at hv⟩

/-- An insertion finds its cell before it would walk over the reserved cell. -/
theorem Reserved.distance_le_of_vacant [DecidableEq κ] (h : Reserved hash K e t) {k : κ}
    {i : Fin n} (hp : probe t (hash k) k = .vacant i) :
    distance (hash k) i ≤ distance (hash k) e := by
  have hs := probe_spec t (hash k) k
  rw [hp] at hs
  cases hs with
  | vacant c d hcd hd hend hpass hfree hlive =>
      rw [distance_advance (hash k) (lt_of_le_of_lt hcd hd)]
      by_contra hgt
      obtain ⟨k', v, hv⟩ := hlive (distance (hash k) e) (by omega)
      rw [advance_distance, h.hole] at hv
      cases hv

/-- An underfull cell is never the one an insertion takes: the run of live cells
before it and the new key would overfill one of its windows. -/
theorem Reserved.ne_of_vacant [DecidableEq κ] (h : Reserved hash K e t)
    (hunder : ∀ d, 0 < d → d ≤ n → (window hash K e 0 d).card < d) {k : κ} (hk : k ∈ K)
    {i : Fin n} (hp : probe t (hash k) k = .vacant i) (hfresh : ∀ i v, t i ≠ .live k v) :
    i ≠ e := by
  rintro rfl
  have hrun := live_run_of_probe_eq_vacant hp le_rfl
  rw [distance_self] at hrun
  rcases Nat.eq_zero_or_pos (distance (hash k) i) with hzero | hpos
  · have hmem : k ∈ window hash K i 0 1 := by
      simp only [window, Finset.mem_filter]
      exact ⟨hk, by omega, by omega⟩
    have hcard := Finset.card_pos.mpr ⟨k, hmem⟩
    have hone := hunder 1 Nat.one_pos i.pos
    omega
  · obtain ⟨d', hd', hd'n, hpaid⟩ :=
      h.paid_succ hk hfresh (d := 1) hpos (fun j hj hjk => hrun j hj hjk)
    have hle := card_window_le hash K i 1 d' hd'
    have hlt := hunder d' hd' hd'n
    omega

/-- An insertion that does not take the reserved cell keeps the reservation. -/
theorem Reserved.insert [DecidableEq κ] (h : Reserved hash K e t)
    (hunder : ∀ d, 0 < d → d ≤ n → (window hash K e 0 d).card < d) {k : κ} (hk : k ∈ K)
    {i : Fin n} (hp : probe t (hash k) k = .vacant i) (v : ν)
    (hwf : WellFormed hash (Function.update t i (.live k v))) :
    Reserved hash K e (Function.update t i (.live k v)) := by
  have hfresh : ∀ j w, t j ≠ .live k w := by
    intro j w hj
    rw [h.wellFormed.probe_eq_found hj] at hp
    cases hp
  have hie := h.ne_of_vacant hunder hk hp hfresh
  have hrun := live_run_of_probe_eq_vacant hp (h.distance_le_of_vacant hp)
  refine ⟨hwf, ?_, by rw [Function.update_of_ne (Ne.symm hie), h.hole], ?_⟩
  · intro j x u hj
    by_cases hji : j = i
    · subst hji
      rw [Function.update_self] at hj
      cases hj
      exact hk
    · rw [Function.update_of_ne hji] at hj
      exact h.keys hj
  · intro d hd
    have hsub : ∀ x ∈ crossing hash K e (Function.update t i (.live k v)) d,
        x = k ∧ d ≤ distance (hash k) e ∧ distance i e < d ∨ x ∈ crossing hash K e t d := by
      intro x hx
      obtain ⟨hxK, hxd, j, u, hj, hju⟩ := mem_crossing.mp hx
      by_cases hji : j = i
      · subst hji
        rw [Function.update_self] at hju
        cases hju
        exact .inl ⟨rfl, hxd, hj⟩
      · rw [Function.update_of_ne hji] at hju
        exact .inr (mem_crossing.mpr ⟨hxK, hxd, j, u, hj, hju⟩)
    by_cases hcross : d ≤ distance (hash k) e ∧ distance i e < d
    · obtain ⟨d', hdd', hd'n, hpaid⟩ := h.paid_succ hk hfresh hcross.1
        (fun j hj hjk => hrun j (by omega) hjk)
      refine ⟨d', hdd', hd'n, ?_⟩
      have hcard : (crossing hash K e (Function.update t i (.live k v)) d).card ≤
          (crossing hash K e t d).card + 1 := by
        refine (Finset.card_le_card (t := Insert.insert k (crossing hash K e t d)) ?_).trans
          (Finset.card_insert_le _ _)
        intro x hx
        rcases hsub x hx with ⟨rfl, _⟩ | hx
        · exact Finset.mem_insert_self _ _
        · exact Finset.mem_insert_of_mem hx
      omega
    · obtain ⟨d', hdd', hd'n, hpaid⟩ := h.paid d hd
      refine ⟨d', hdd', hd'n, ?_⟩
      have hcard : (crossing hash K e (Function.update t i (.live k v)) d).card ≤
          (crossing hash K e t d).card := by
        apply Finset.card_le_card
        intro x hx
        rcases hsub x hx with ⟨_, hx⟩ | hx
        · exact absurd hx hcross
        · exact hx
      omega

/-- No operation on a key of `K` uses the reserved cell. -/
theorem Reserved.upsert [DecidableEq κ] (h : Reserved hash K e t)
    (hunder : ∀ d, 0 < d → d ≤ n → (window hash K e 0 d).card < d) {k : κ} (hk : k ∈ K)
    (f : Option ν → ν) : Reserved hash K e (upsert hash t k f) := by
  have hwf := h.wellFormed.upsert k f
  cases hp : probe t (hash k) k with
  | found i =>
      obtain ⟨v, hi⟩ := live_of_probe_eq_found hp
      rw [upsert_of_found hp] at hwf ⊢
      exact h.overwrite hi _ hwf
  | vacant i =>
      rw [upsert_of_vacant hp] at hwf ⊢
      exact h.insert hunder hk hp _ hwf
  | full => rwa [upsert_of_full hp]

end Reserved

end LinearProbing
