import Pseudoroot.Model.Wincode
import Pseudoroot.Verification.Session.Cluster
import Pseudoroot.Verification.Session.Startup

/-! # The tables of the processes beside the daemon's -/

namespace Pseudoroot.Cluster

open Calls Calls.Program

variable {ι : Type} [DecidableEq ι] {n : ℕ} [NeZero n] {w : Wincode} {codec : XattrCodec}

def lookup (w : Wincode) (codec : XattrCodec) (c : Cluster ι n) (i : ι) (key : InodeKey) :
    Option FakeInode :=
  (exec (Session.handle w codec) (Ownership.getInode w key) (c.2 i) c.1).1.1

/-- Every process sees the entries of the daemon. -/
def Coherent (w : Wincode) (codec : XattrCodec) (c : Cluster ι n) : Prop :=
  ∀ i key, c.lookup w codec i key = c.1.daemon.state.getInode key

/-- No process but the one that removes an entry has one for that inode of its own. -/
def RemovesOnlyOwn (c : Cluster ι n) : ι × MetadataOp → Prop
  | (i, .removeInode key) => ∀ j, j ≠ i → (c.2 j).globalState.getInode key = none
  | _ => True

omit [DecidableEq ι] in
theorem lookup_eq (hw : w.Lawful) {c : Cluster ι n} (hc : c.AllConnected) (i : ι) (key : InodeKey) :
    c.lookup w codec i key =
      (c.1.daemon.state.getInode key <|> (c.2 i).globalState.getInode key) := by
  rw [lookup, exec_getInode hw codec (hc i)]

omit [DecidableEq ι] in
/-- The processes see the daemon's entries when none has an entry that the daemon lacks. -/
theorem coherent_iff (hw : w.Lawful) {c : Cluster ι n} (hc : c.AllConnected) :
    c.Coherent w codec ↔
      ∀ i key, c.1.daemon.state.getInode key = none → (c.2 i).globalState.getInode key = none := by
  refine forall_congr' fun i => forall_congr' fun key => ?_
  rw [lookup_eq hw hc]
  cases c.1.daemon.state.getInode key <;> simp

theorem globalState_step (codec : XattrCodec) (hw : w.Lawful) {c : Cluster ι n}
    (hc : c.AllConnected) (i : ι)
    (op : MetadataOp) :
    (step w codec c (i, op)).1.daemon.state =
        (op.storesAfter c.1.daemon.state (c.2 i).globalState).1 ∧
      ((step w codec c (i, op)).2 i).globalState =
        (op.storesAfter c.1.daemon.state (c.2 i).globalState).2 ∧
      ∀ j, j ≠ i → ((step w codec c (i, op)).2 j).globalState = (c.2 j).globalState := by
  obtain ⟨k, hexec⟩ := exec_hook codec hw (hc i) c.1 op
  rw [step_eq, hexec]
  refine ⟨rfl, ?_, fun j hj => ?_⟩
  · simp
  · simp [Function.update_of_ne hj]

/-- An operation binds its key in the daemon, or unbinds it in both stores. -/
theorem storesAfter_none {d g : FakeRootState}
    (h : ∀ key, d.getInode key = none → g.getInode key = none)
    (op : MetadataOp) (key : InodeKey) (hd : (op.storesAfter d g).1.getInode key = none) :
    (op.storesAfter d g).2.getInode key = none := by
  cases op <;>
    simp only [MetadataOp.storesAfter, FakeRootState.getInode_setInode,
      FakeRootState.getInode_removeInode, FakeRootState.getInode_upsertChown] at hd ⊢ <;>
    split at hd <;> simp_all

theorem eq_removeInode_of_storesAfter_none {d g : FakeRootState} {op : MetadataOp} {key : InodeKey}
    (hd : (op.storesAfter d g).1.getInode key = none) (hbound : d.getInode key ≠ none) :
    op = .removeInode key := by
  cases op <;>
    simp only [MetadataOp.storesAfter, FakeRootState.getInode_setInode,
      FakeRootState.getInode_removeInode, FakeRootState.getInode_upsertChown] at hd <;>
    split at hd <;> simp_all

/-- From a coherent state, an operation leaves one exactly when it is no removal behind
the back of another process. -/
theorem coherent_step_iff (codec : XattrCodec) (hw : w.Lawful) {c : Cluster ι n}
    (hc : c.AllConnected) (hcoh : c.Coherent w codec) (a : ι × MetadataOp) :
    (step w codec c a).Coherent w codec ↔ c.RemovesOnlyOwn a := by
  obtain ⟨i, op⟩ := a
  obtain ⟨hdaemon, hown, hothers⟩ := globalState_step codec hw hc i op
  rw [coherent_iff hw (hc.step codec hw (i, op))]
  rw [coherent_iff hw hc] at hcoh
  constructor
  · intro hnext
    cases op with
    | removeInode key =>
        intro j hj
        rw [← hothers j hj]
        refine hnext j key ?_
        rw [hdaemon]
        simp [MetadataOp.storesAfter, FakeRootState.getInode_removeInode]
    | setInode key inode => trivial
    | updateInode key f => trivial
    | recordChown key uid gid => trivial
  · intro hguard j key hnone
    rw [hdaemon] at hnone
    by_cases hj : j = i
    · subst hj
      rw [hown]
      exact storesAfter_none (hcoh j) op key hnone
    · rw [hothers j hj]
      by_cases hbound : c.1.daemon.state.getInode key = none
      · exact hcoh j key hbound
      · obtain rfl := eq_removeInode_of_storesAfter_none hnone hbound
        exact hguard j hj

/-- In a session whose processes begin with empty tables, every process sees the
daemon's entries throughout a run exactly when every removal finds no entry of another
process for its inode. -/
theorem coherent_iff_removesOnlyOwn (hw : w.Lawful) (c : Cluster ι n) (hc : c.AllConnected)
    (hempty : ∀ i key, (c.2 i).globalState.getInode key = none) (ops : List (ι × MetadataOp)) :
    (∀ k ≤ ops.length, (Machine.run (step w codec) c (ops.take k)).Coherent w codec) ↔
      ∀ k (hk : k < ops.length),
        (Machine.run (step w codec) c (ops.take k)).RemovesOnlyOwn ops[k] :=
  Machine.forall_good_iff_forall_guard
    (I := fun c : Cluster ι n => c.AllConnected) (G := fun c => c.Coherent w codec)
    (fun _ a hc => hc.step codec hw a) (fun _ a hc hcoh => coherent_step_iff codec hw hc hcoh a) hc
    ((coherent_iff hw hc).mpr fun i key _ => hempty i key) ops

/-! ## A stale entry -/

/-- A daemon session with two initialized processes. -/
def pair : Cluster Bool 1 :=
  (Session.start 1 0 0, fun _ => (Process.constructed .daemon 0 0).finished.attachedDaemon)

theorem pair_allConnected : pair.AllConnected :=
  fun _ => (Process.fresh_constructed .daemon 0 0).connected_attachedDaemon

/-- One process records metadata and the other removes it: the first still sees it. -/
theorem stale_entry_after_remove :
    let c := Machine.run (step Wincode.bincode XattrCodec.wincode) pair
      [(false, .setInode (1, 2) (FakeInode.new 7 7)), (true, .removeInode (1, 2))]
    c.1.daemon.state.getInode (1, 2) = none ∧
      c.lookup Wincode.bincode XattrCodec.wincode false (1, 2) = some (FakeInode.new 7 7) := by
  intro c
  have hw := Wincode.bincode_lawful
  have hset := pair_allConnected.step XattrCodec.wincode hw
    (false, .setInode (1, 2) (FakeInode.new 7 7))
  obtain ⟨-, hown, -⟩ := globalState_step XattrCodec.wincode hw pair_allConnected false
    (.setInode (1, 2) (FakeInode.new 7 7))
  obtain ⟨hdaemon, -, hother⟩ := globalState_step XattrCodec.wincode hw hset true
    (.removeInode (1, 2))
  have hremoved : c.1.daemon.state.getInode (1, 2) = none := by
    simp only [c, Machine.run_cons, Machine.run_nil, hdaemon, MetadataOp.storesAfter,
      FakeRootState.getInode_removeInode, if_true]
  have hkept : (c.2 false).globalState.getInode (1, 2) = some (FakeInode.new 7 7) := by
    simp only [c, Machine.run_cons, Machine.run_nil, hother false (by decide), hown,
      MetadataOp.storesAfter, FakeRootState.getInode_setInode, if_true]
  have hconnected : c.AllConnected := hset.step XattrCodec.wincode hw (true, .removeInode (1, 2))
  refine ⟨hremoved, ?_⟩
  rw [lookup_eq hw hconnected, hremoved, hkept]
  rfl

/-- A process removes what it recorded itself. -/
theorem coherent_iff_removesOnlyOwn_pair :
    let ops : List (Bool × MetadataOp) :=
      [(false, .setInode (1, 2) (FakeInode.new 7 7)), (false, .removeInode (1, 2))]
    (∀ k ≤ ops.length, (Machine.run (step Wincode.bincode XattrCodec.wincode) pair
        (ops.take k)).Coherent Wincode.bincode XattrCodec.wincode) ↔
      ∀ k (hk : k < ops.length), (Machine.run (step Wincode.bincode XattrCodec.wincode) pair
        (ops.take k)).RemovesOnlyOwn ops[k] :=
  coherent_iff_removesOnlyOwn Wincode.bincode_lawful pair pair_allConnected
    (fun _ _ => rfl) _

end Pseudoroot.Cluster
