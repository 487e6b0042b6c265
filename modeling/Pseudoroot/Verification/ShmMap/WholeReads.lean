import Pseudoroot.Verification.ShmMap.Publication

/-! # Lookups beside a process that upserts

One process upserts entries while others look keys up, each a single access at a time. -/

namespace Pseudoroot

open Calls Calls.Program

open ShmInodeMap

/-! ## One writer and its readers -/

/-- What the writing process is doing. -/
inductive Writer (n : ℕ) where
  | idle
  | probing (op : StoreOp) (rest : Program (accessSignature n) (Probe n))
  | storing (op : StoreOp) (rest : List (ShmStore n))

def Writer.op {n : ℕ} : Writer n → List StoreOp
  | .idle => []
  | .probing op _ | .storing op _ => [op]

/-- A lookup in progress, with the number of operations that had ended when it began. -/
structure Lookup (n : ℕ) where
  key : InodeKey
  ended : ℕ
  rest : Program (accessSignature n) (Option FakeInode)

/-- A lookup that has returned. At its end `begun` operations had begun. -/
structure LookupReply where
  key : InodeKey
  ended : ℕ
  result : Option FakeInode
  begun : ℕ

structure Readers (ι : Type) (n : ℕ) where
  map : ShmInodeMap n
  done : List StoreOp
  writer : Writer n
  lookup : ι → Option (Lookup n)
  replies : List LookupReply

/-- Whose turn it is. -/
inductive Turn (ι : Type) where
  | begin (op : StoreOp)
  | write
  | lookup (i : ι) (key : InodeKey)
  | read (i : ι)

namespace Readers

variable {ι : Type} [DecidableEq ι] {n : ℕ} [NeZero n]

/-- The operations begun so far. -/
def log (s : Readers ι n) : List StoreOp :=
  s.done ++ s.writer.op

/-- Between operations, with no lookup in progress. -/
def initial (map : ShmInodeMap n) : Readers ι n :=
  ⟨map, [], .idle, fun _ => none, []⟩

/-- One access of the writer or of a reader. -/
def step (codec : XattrCodec) (s : Readers ι n) : Turn ι → Readers ι n
  | .begin op =>
    match s.writer with
    | .idle => { s with writer := .probing op (probeProgram op.key n (hash op.key) none) }
    | _ => s
  | .write =>
    match s.writer with
    | .idle => s
    | .probing op (.call c next) =>
      { s with
        map := (access c s.map).2
        writer := .probing op (next (access c s.map).1) }
    | .probing op (.done outcome) => { s with writer := .storing op (storesOf codec op outcome) }
    | .storing op (store :: rest) => { s with map := store.apply s.map, writer := .storing op rest }
    | .storing op [] => { s with done := s.done ++ [op], writer := .idle }
  | .lookup i key =>
    match s.lookup i with
    | some _ => s
    | none =>
      { s with
        lookup := Function.update s.lookup i
          (some ⟨key, s.done.length, getInodeProgram codec key⟩) }
  | .read i =>
    match s.lookup i with
    | none => s
    | some ⟨key, ended, .call c next⟩ =>
      { s with
        map := (access c s.map).2
        lookup := Function.update s.lookup i (some ⟨key, ended, next (access c s.map).1⟩) }
    | some ⟨key, ended, .done result⟩ =>
      { s with
        lookup := Function.update s.lookup i none
        replies := ⟨key, ended, result, s.log.length⟩ :: s.replies }

/-- The writer's operations only insert the key or work on other keys. -/
def Guarded (key : InodeKey) (s : Readers ι n) : Turn ι → Prop
  | .begin op => s.writer = .idle → Inserts key s.map op
  | _ => True

/-! ## The invariant -/

/-- The answer to the key after `m` operations. -/
def answer (codec : XattrCodec) (start : ShmInodeMap n) (log : List StoreOp) (key : InodeKey)
    (m : ℕ) : Option FakeInode :=
  (start.after codec (log.take m)).getInode codec key

/-- The map is on its way from the state after `done` to the state after the operation. -/
def WriterSound (codec : XattrCodec) (start : ShmInodeMap n) (key : InodeKey) (done : List StoreOp)
    (map : ShmInodeMap n) : Writer n → Prop
  | .idle => map = start.after codec done
  | .probing op rest =>
    map = start.after codec done ∧ Inserts key map op ∧
      OnlyCalls (IsRead access) (fun _ => True) rest ∧
      (run access rest map).1 = map.probe op.key
  | .storing op rest =>
    Publishes key rest map ∧
      rest.foldl ShmStore.apply map = start.after codec (done ++ [op]) ∧
      (rest ≠ [] → map.getInode codec key = (start.after codec done).getInode codec key)

/-- A lookup of the key will answer what the map held at some moment since it began. -/
def LookupSound (codec : XattrCodec) (start : ShmInodeMap n) (log : List StoreOp)
    (map : ShmInodeMap n) (l : Lookup n) : Prop :=
  ∃ begun : ShmInodeMap n,
    begun.Reaches l.key ∧
      (∃ m, l.ended ≤ m ∧ m ≤ log.length ∧
        begun.getInode codec l.key = answer codec start log l.key m) ∧
      Under access (Grows l.key) (MayLoad l.key) (LookupAnswer codec l.key begun) l.rest map

/-- The result is the answer after some number of operations between those that had ended
when the lookup began and those that had begun when it ended. -/
def ReplySound (codec : XattrCodec) (start : ShmInodeMap n) (log : List StoreOp)
    (r : LookupReply) : Prop :=
  r.begun ≤ log.length ∧ ∃ m, r.ended ≤ m ∧ m ≤ r.begun ∧
    r.result = answer codec start log r.key m

structure Sound (codec : XattrCodec) (start : ShmInodeMap n) (key : InodeKey)
    (s : Readers ι n) : Prop where
  writer : WriterSound codec start key s.done s.map s.writer
  reading : ∀ i l, s.lookup i = some l →
    l.ended ≤ s.done.length ∧ OnlyCalls (IsRead access) (fun _ => True) l.rest
  lookup : ∀ i l, s.lookup i = some l → l.key = key → LookupSound codec start s.log s.map l
  reply : ∀ r ∈ s.replies, r.key = key → ReplySound codec start s.log r

section Invariant

variable {codec : XattrCodec} {start : ShmInodeMap n} {key : InodeKey} {log : List StoreOp}
  {s : Readers ι n}

theorem answer_append {m : ℕ} (h : m ≤ log.length) (more : List StoreOp) :
    answer codec start (log ++ more) key m = answer codec start log key m := by
  rw [answer, List.take_append_of_le_length h, answer]

theorem ReplySound.append {r : LookupReply} (h : ReplySound codec start log r)
    (more : List StoreOp) : ReplySound codec start (log ++ more) r := by
  obtain ⟨hlen, m, hended, hm, hresult⟩ := h
  refine ⟨?_, m, hended, hm, ?_⟩
  · rw [List.length_append]
    omega
  · rw [answer_append (hm.trans hlen)]
    exact hresult

theorem LookupSound.append {map : ShmInodeMap n} {l : Lookup n}
    (h : LookupSound codec start log map l) (more : List StoreOp) :
    LookupSound codec start (log ++ more) map l := by
  obtain ⟨begun, hreaches, ⟨m, hended, hm, hanswer⟩, hunder⟩ := h
  refine ⟨begun, hreaches, ⟨m, hended, ?_, ?_⟩, hunder⟩
  · rw [List.length_append]
    omega
  · rw [answer_append hm]
    exact hanswer

theorem LookupSound.change {map map' : ShmInodeMap n} {l : Lookup n}
    (h : LookupSound codec start log map l) (hmap : map.Grows l.key map') :
    LookupSound codec start log map' l := by
  obtain ⟨begun, hreaches, hanswer, hunder⟩ := h
  exact ⟨begun, hreaches, hanswer, hunder.change Grows.trans hmap⟩

/-- In the middle of an operation too, the key is answered as before or as after it. -/
theorem WriterSound.current (hstart : start.Valid codec) {done : List StoreOp}
    {map : ShmInodeMap n} {writer : Writer n}
    (h : WriterSound codec start key done map writer) :
    map.Reaches key ∧ ∃ m, done.length ≤ m ∧ m ≤ (done ++ writer.op).length ∧
      map.getInode codec key = answer codec start (done ++ writer.op) key m := by
  have hdone : ∀ more, answer codec start (done ++ more) key done.length =
      (start.after codec done).getInode codec key := by
    intro more
    rw [answer, List.take_left]
  have hle : done.length ≤ (done ++ writer.op).length := by
    rw [List.length_append]
    exact Nat.le_add_right _ _
  cases writer with
  | idle =>
      have hmap : map = start.after codec done := h
      subst hmap
      exact ⟨(hstart.after done).reaches key, done.length, Nat.le_refl _, hle, (hdone _).symm⟩
  | probing op rest =>
      obtain ⟨rfl, -⟩ := h
      exact ⟨(hstart.after done).reaches key, done.length, Nat.le_refl _, hle, (hdone _).symm⟩
  | storing op rest =>
      obtain ⟨hpublishes, hfold, hsame⟩ := h
      refine ⟨hpublishes.reaches, ?_⟩
      cases rest with
      | nil =>
          have hmap : map = start.after codec (done ++ [op]) := hfold
          refine ⟨(done ++ [op]).length, hle, Nat.le_refl _, ?_⟩
          rw [answer, Writer.op, List.take_length, hmap]
      | cons store rest =>
          refine ⟨done.length, Nat.le_refl _, hle, ?_⟩
          rw [hdone, hsame (List.cons_ne_nil _ _)]

/-! ## Each turn -/

omit [DecidableEq ι] in
/-- A turn of the writer. -/
theorem Sound.of_writer (h : s.Sound codec start key) (more : List StoreOp) {s' : Readers ι n}
    (hwriter : WriterSound codec start key s'.done s'.map s'.writer)
    (hlookup : s'.lookup = s.lookup) (hreplies : s'.replies = s.replies)
    (hdone : s.done.length ≤ s'.done.length) (hlog : s'.log = s.log ++ more)
    (hgrows : s.map.Grows key s'.map) : s'.Sound codec start key := by
  refine ⟨hwriter, fun i l hl => ?_, fun i l hl hkey => ?_, fun r hr hkey => ?_⟩
  · rw [hlookup] at hl
    exact ⟨(h.reading i l hl).1.trans hdone, (h.reading i l hl).2⟩
  · rw [hlookup] at hl
    rw [hlog]
    exact ((h.lookup i l hl hkey).append more).change (hkey ▸ hgrows)
  · rw [hreplies] at hr
    rw [hlog]
    exact (h.reply r hr hkey).append more

/-- A turn of reader `i`. -/
theorem Sound.of_reader (h : s.Sound codec start key) {i : ι}
    {next : Option (Lookup n)} {replies : List LookupReply}
    (hreading : ∀ l, next = some l →
      l.ended ≤ s.done.length ∧ OnlyCalls (IsRead access) (fun _ => True) l.rest)
    (hlookup : ∀ l, next = some l → l.key = key → LookupSound codec start s.log s.map l)
    (hreply : ∀ r ∈ replies, r.key = key → ReplySound codec start s.log r) :
    Sound codec start key
      { s with lookup := Function.update s.lookup i next, replies := replies } := by
  refine ⟨h.writer, fun j l hl => ?_, fun j l hl hkey => ?_, hreply⟩
  · dsimp only at hl
    by_cases hj : j = i
    · subst hj
      rw [Function.update_self] at hl
      exact hreading l hl
    · rw [Function.update_of_ne hj] at hl
      exact h.reading j l hl
  · dsimp only at hl
    by_cases hj : j = i
    · subst hj
      rw [Function.update_self] at hl
      exact hlookup l hl hkey
    · rw [Function.update_of_ne hj] at hl
      exact h.lookup j l hl hkey

theorem Sound.begin (h : s.Sound codec start key) (op : StoreOp)
    (hguard : Guarded key s (.begin op)) : (step codec s (.begin op)).Sound codec start key := by
  have hwriter := h.writer
  unfold step
  cases hw : s.writer with
  | idle =>
      rw [hw] at hwriter
      refine h.of_writer [op] ⟨hwriter, hguard hw, ?_, ?_⟩ rfl rfl (Nat.le_refl _) ?_
        (Grows.refl key s.map)
      · exact onlyCalls_probeProgram _ _ _ _
      · rw [run_probeProgram]
        rfl
      · simp only [log, hw, Writer.op, List.append_nil]
  | probing op' rest => simpa only [hw] using h
  | storing op' rest => simpa only [hw] using h

theorem Sound.write (h : s.Sound codec start key) (hstart : start.Valid codec) :
    (step codec s .write).Sound codec start key := by
  have hwriter := h.writer
  unfold step
  cases hw : s.writer with
  | idle => simpa only [hw] using h
  | probing op rest =>
      rw [hw] at hwriter
      obtain ⟨hmap, hinserts, hreads, hrun⟩ := hwriter
      cases rest with
      | call c next =>
          have hsame : (access c s.map).2 = s.map := hreads.1 s.map
          rw [run_call, hsame] at hrun
          simp only [hsame]
          refine h.of_writer [] ⟨hmap, hinserts, hreads.2 _, hrun⟩ rfl rfl
            (Nat.le_refl _) ?_ (Grows.refl key s.map)
          simp only [log, hw, Writer.op, List.append_nil]
      | done outcome =>
          have houtcome : outcome = s.map.probe op.key := hrun
          have hreaches : s.map.Reaches key := hmap ▸ (hstart.after s.done).reaches key
          refine h.of_writer [] ⟨?_, ?_, fun _ => by rw [hmap]⟩ rfl rfl (Nat.le_refl _)
            ?_ (Grows.refl key s.map)
          · rw [houtcome]
            exact publishes_storesOf codec hinserts hreaches
          · rw [foldl_storesOf, houtcome, ← call_snd_eq_write, hmap, after, after,
              Machine.run_append, Machine.run_cons, Machine.run_nil]
          · simp only [log, hw, Writer.op, List.append_nil]
  | storing op rest =>
      rw [hw] at hwriter
      obtain ⟨hpublishes, hfold, hsame⟩ := hwriter
      cases rest with
      | nil =>
          refine h.of_writer [] hfold rfl rfl ?_ ?_ (Grows.refl key s.map)
          · rw [List.length_append]
            exact Nat.le_add_right _ _
          · simp only [log, hw, Writer.op, List.append_nil]
      | cons store rest =>
          obtain ⟨hreaches, hgrows, -, hquiet, hrest⟩ := hpublishes
          refine h.of_writer [] ⟨hrest, hfold, fun hne => ?_⟩ rfl rfl (Nat.le_refl _) ?_
            hgrows
          · rw [hgrows.getInode_eq hreaches hrest.reaches (hquiet hne)]
            exact hsame (List.cons_ne_nil _ _)
          · simp only [log, hw, Writer.op, List.append_nil]

theorem Sound.beginLookup (h : s.Sound codec start key) (hstart : start.Valid codec) (i : ι)
    (k : InodeKey) : (step codec s (.lookup i k)).Sound codec start key := by
  cases hi : s.lookup i with
  | some l => simpa only [Readers.step, hi] using h
  | none =>
      simp only [Readers.step, hi]
      refine h.of_reader (fun l hl => ?_) (fun l hl hkey => ?_) h.reply
      · cases hl
        exact ⟨Nat.le_refl _, onlyCalls_getInodeProgram codec k⟩
      · cases hl
        have hkey : k = key := hkey
        subst hkey
        obtain ⟨hreaches, hanswer⟩ := h.writer.current hstart
        exact ⟨s.map, hreaches, hanswer, under_getInodeProgram hreaches⟩

omit [DecidableEq ι] in
/-- A lookup of the key that has run returns the answer of a moment since it began. -/
theorem Sound.answer_of_done (h : s.Sound codec start key) (hstart : start.Valid codec) {i : ι}
    {ended : ℕ} {result : Option FakeInode} (hi : s.lookup i = some ⟨key, ended, .done result⟩) :
    ReplySound codec start s.log ⟨key, ended, result, s.log.length⟩ := by
  obtain ⟨begun, hbegun, ⟨m, hended, hm, hanswer⟩, hunder⟩ := h.lookup i _ hi rfl
  have hresult := hunder.result (Grows.refl key)
  refine ⟨Nat.le_refl _, ?_⟩
  cases result with
  | none => exact ⟨m, hended, hm, (getInode_eq_none hresult).symm.trans hanswer⟩
  | some inode =>
      obtain ⟨j, hj, rfl⟩ := hresult
      obtain ⟨hreaches, m', hdone, hm', hanswer'⟩ := h.writer.current hstart
      refine ⟨m', (h.reading i _ hi).1.trans hdone, hm', ?_⟩
      exact (hreaches.getInode_eq_some hj).symm.trans hanswer'

theorem Sound.read (h : s.Sound codec start key) (hstart : start.Valid codec) (i : ι) :
    (step codec s (.read i)).Sound codec start key := by
  cases hi : s.lookup i with
  | none => simpa only [Readers.step, hi] using h
  | some l =>
      obtain ⟨k, ended, rest⟩ := l
      obtain ⟨hended, hreads⟩ := h.reading i _ hi
      cases rest with
      | call c next =>
          have hsame : (access c s.map).2 = s.map := hreads.1 s.map
          simp only [Readers.step, hi, hsame]
          refine h.of_reader (fun l hl => ?_) (fun l hl hkey => ?_) h.reply
          · cases hl
            exact ⟨hended, hreads.2 _⟩
          · cases hl
            obtain ⟨begun, hbegun, hanswer, hunder⟩ := h.lookup i _ hi hkey
            exact ⟨begun, hbegun, hanswer, hunder.next (Grows.refl k)⟩
      | done result =>
          simp only [Readers.step, hi]
          refine h.of_reader (fun l hl => by cases hl) (fun l hl => by cases hl)
            fun r hr hkey => ?_
          rcases List.mem_cons.mp hr with rfl | hr
          · have hkey : k = key := hkey
            subst hkey
            exact h.answer_of_done hstart hi
          · exact h.reply r hr hkey

theorem Sound.step (h : s.Sound codec start key) (hstart : start.Valid codec) {turn : Turn ι}
    (hguard : Guarded key s turn) : (step codec s turn).Sound codec start key := by
  cases turn with
  | begin op => exact h.begin op hguard
  | write => exact h.write hstart
  | lookup i k => exact h.beginLookup hstart i k
  | read i => exact h.read hstart i

omit [DecidableEq ι] in
theorem sound_initial (codec : XattrCodec) (start : ShmInodeMap n) (key : InodeKey) :
    (initial (ι := ι) start).Sound codec start key :=
  ⟨rfl, fun _ _ hl => (by cases hl), fun _ _ hl => (by cases hl), fun _ hr => (by cases hr)⟩

/-! ## Main result -/

/-- Lookups of the key are answered by whole entries, the map between operations is the result
of those that have ended, and no lookup of the key races with a store. -/
structure ReadsWhole (codec : XattrCodec) (start : ShmInodeMap n) (key : InodeKey)
    (s : Readers ι n) : Prop where
  reply : ∀ r ∈ s.replies, r.key = key → ReplySound codec start s.log r
  idle : s.writer = .idle → s.map = start.after codec s.log
  raceFree : ∀ i l c next op store rest, s.lookup i = some l → l.key = key →
    l.rest = .call c next → s.writer = .storing op (store :: rest) → ¬ store.Conflicts c

omit [DecidableEq ι] in
theorem Sound.readsWhole (h : s.Sound codec start key) : s.ReadsWhole codec start key := by
  have hwriter := h.writer
  refine ⟨h.reply, fun hw => ?_, fun i l c next op store rest hi hkey hrest hw => ?_⟩
  · rw [hw] at hwriter
    rw [log, hw, Writer.op, List.append_nil]
    exact hwriter
  · subst hkey
    obtain ⟨begun, -, -, hunder⟩ := h.lookup i l hi rfl
    rw [hrest] at hunder
    rw [hw] at hwriter
    exact hwriter.1.2.2.1 c (hunder.pre (Grows.refl l.key))

/-- One process upserts entries of a map and any number of others look keys up, in any
interleaving of their single accesses. If no operation removes an entry or updates that of the
key, every lookup of the key returns the answer after a number of whole operations: all that had
ended when it began, and none that had not begun when it returned. No lookup reads plain memory
that the next store writes. -/
theorem readsWhole_of_upserts (codec : XattrCodec) {checks : Bool} {os : ShmOs}
    {slotCount uid gid : UInt32} {created : ShmInodeMap (tableSlotCount slotCount)}
    (hcreate : ShmInodeMap.create checks os slotCount uid gid = .ok created)
    (earlier : List StoreOp) (key : InodeKey) (turns : List (Turn ι))
    (hguard : ∀ k (hk : k < turns.length),
      Guarded key (Machine.run (Readers.step codec) (initial (created.after codec earlier))
        (turns.take k)) turns[k]) :
    ∀ k ≤ turns.length,
      (Machine.run (Readers.step codec) (initial (created.after codec earlier))
        (turns.take k)).ReadsWhole codec (created.after codec earlier) key := by
  intro k hk
  have hstart := (valid_of_create codec hcreate).after earlier
  have hsound := Machine.run_invariant_of_guard
    (I := fun s : Readers ι _ => s.Sound codec (created.after codec earlier) key)
    (fun s turn hturn hs => hs.step hstart hturn) (sound_initial codec _ key) turns hguard k hk
  exact hsound.readsWhole

end Invariant

/-- An entry is inserted into a created map while a lookup of its key is under way. -/
theorem readsWhole_of_upserts_of_insertion :
    let created := ShmInodeMap.initHeader (tableSlotCount 1)
      (headerSize + slotSize * tableSlotCount 1 + xattrPageSize * tableSlotCount 1) 0 0
    let turns : List (Turn Unit) :=
      [.begin (.upsertChown (0, 0) 7 8 0 0), .lookup () (0, 0), .write, .write, .write, .read (),
        .write, .write, .write, .write, .write, .write, .read (), .write]
    ∀ k ≤ turns.length,
      (Machine.run (Readers.step XattrCodec.wincode)
        (initial (created.after XattrCodec.wincode [])) (turns.take k)).ReadsWhole
          XattrCodec.wincode (created.after XattrCodec.wincode []) (0, 0) := by
  intro created turns
  refine readsWhole_of_upserts XattrCodec.wincode (create_eq_ok 1 0 0) [] (0, 0) turns
    fun k hk => ?_
  cases k with
  | zero =>
      intro _ _ i hlive
      cases hlive.1
  | succ k =>
      have hlater : ∀ turn ∈ turns.tail, ∀ op, turn ≠ .begin op := by
        simp [turns]
      have hmem : turns[k + 1] ∈ turns.tail := List.getElem_mem (Nat.lt_of_succ_lt_succ hk)
      cases hturn : turns[k + 1] with
      | begin op => exact absurd hturn (hlater _ hmem op)
      | write | lookup i k | read i => trivial

end Readers

end Pseudoroot
