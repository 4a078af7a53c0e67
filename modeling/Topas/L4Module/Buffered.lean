import Topas.L4Module.Unbuffered

/-!
# One storage for all records since the last test

With `BufferedFilesInputPolicy` the records of all packets go to one storage, `buffer`, until
`getStorage` takes it and puts a new one in its place. The work thread holds `packetLock` while it
imports the packets that it was notified of, a batch; the test thread holds it while it exchanges
the storage. The steps of the two threads interleave in any order, those of an import at every call
of the storage. Only the work thread takes `recordMutex`, which is left out.

* `batches_handed_over`: the storages come out in order and each once; what the test thread has been
  given is the batches in the order of their import, every batch in one piece, and a storage is not
  touched any more when it has been returned.
* `buffered_proceeds`: a thread waits for `packetLock` only while the other one has it and can go
  on.
-/
namespace Topas

/-- A batch is the calls that its records make of a storage. -/
abbrev Batch := List (List StoreCall)

/-- Where the work thread is in `importToStorage`. `fill`: it has got the storage `buf` for a
record, and makes `calls` of it.
mirrors detectionmodules/detectionbase/filepolicy.h:285-289,
detectionmodules/detectionbase/detectcallbacks.h:49-73 -/
inductive ImporterPc where
  | idle
  | lock (batch : Batch)
  | next (records : Batch)
  | fill (buf : Nat) (calls : List StoreCall) (records : Batch)
  | unlock
  deriving DecidableEq, Repr

/-- Where the test thread is in `getStorage`.
mirrors detectionmodules/detectionbase/filepolicy.h:295-302 -/
inductive TesterPc where
  | idle
  | take
  | replace (ret : Nat)
  | unlock (ret : Nat)
  deriving DecidableEq, Repr

/-- `storages` are the contents of all storages, by number. `batches`, `begun` and `delivered` are
ghosts: the batches whose import began while a storage was `buffer`, all of them, and the storages
that `getStorage` has returned. -/
structure Buffered where
  storages : List (List StoreCall)
  buffer : Nat
  packetLock : Nat
  importer : ImporterPc
  tester : TesterPc
  batches : List (List Batch)
  begun : List Batch
  delivered : List Nat
  deriving DecidableEq, Repr

inductive BufferedOp where
  | importToStorage (batch : Batch)
  | work
  | test
  deriving DecidableEq, Repr

namespace Buffered

/-- mirrors detectionmodules/detectionbase/filepolicy.h:275-277 -/
def init : Buffered := ⟨[[]], 0, 1, .idle, .idle, [[]], [], []⟩

/-- The work thread, or `none` where it blocks.
mirrors detectionmodules/detectionbase/filepolicy.h:285-289 -/
def work (s : Buffered) : Option Buffered :=
  match s.importer with
  | .idle => none
  | .lock batch =>
    if 0 < s.packetLock then
      some { s with
        packetLock := s.packetLock - 1
        importer := .next batch
        batches := s.batches.modify s.buffer (· ++ [batch])
        begun := s.begun ++ [batch] }
    else none
  | .next [] => some { s with importer := .unlock }
  | .next (calls :: records) => some { s with importer := .fill s.buffer calls records }
  | .fill buf (c :: calls) records =>
    some
      { s with storages := s.storages.modify buf (· ++ [c]), importer := .fill buf calls records }
  | .fill _ [] records => some { s with importer := .next records }
  | .unlock => some { s with packetLock := s.packetLock + 1, importer := .idle }

/-- `getStorage`, or `none` where it blocks.
mirrors detectionmodules/detectionbase/filepolicy.h:295-302 -/
def test (s : Buffered) : Option Buffered :=
  match s.tester with
  | .idle => if 0 < s.packetLock then some
    { s with packetLock := s.packetLock - 1, tester := .take } else none
  | .take => some { s with tester := .replace s.buffer }
  | .replace ret =>
    some { s with
      storages := s.storages ++ [[]]
      batches := s.batches ++ [[]]
      buffer := s.storages.length
      tester := .unlock ret }
  | .unlock ret =>
    some { s with packetLock := s.packetLock + 1, tester := .idle, delivered := s.delivered ++ [ret] }

def step (s : Buffered) : BufferedOp → Option Buffered
  | .importToStorage batch => if s.importer = .idle then some { s with importer := .lock batch } else none
  | .work => s.work
  | .test => s.test

end Buffered

def bufferedFiles : LTS Buffered BufferedOp := .ofStep (· = Buffered.init) Buffered.step

theorem Buffered.reachable_exec {G : Buffered → BufferedOp → Prop} [∀ s, DecidablePred (G s)]
    {s : Buffered} {ops : List BufferedOp} (h : LTS.exec G Buffered.step .init ops = some s) :
    (bufferedFiles.restrict G).Reachable s :=
  LTS.Reachable.exec (.init rfl) h

/-! ## The invariant -/

/-- The work thread has `packetLock`. -/
@[simp] def ImporterPc.holds : ImporterPc → Nat
  | idle => 0
  | lock _ => 0
  | _ => 1

/-- The calls of the batch that are still to be made. -/
@[simp] def ImporterPc.rest : ImporterPc → List StoreCall
  | next records => records.flatten
  | fill _ calls records => calls ++ records.flatten
  | _ => []

/-- The test thread has `packetLock`. -/
@[simp] def TesterPc.holds : TesterPc → Nat
  | idle => 0
  | _ => 1

/-- A storage that is replaced and not returned. -/
@[simp] def TesterPc.replaced : TesterPc → List Nat
  | unlock ret => [ret]
  | _ => []

/-- The calls of some batches. -/
def contentOf (batches : List Batch) : List StoreCall := batches.flatten.flatten

structure Buffered.Inv (s : Buffered) : Prop where
  packetLock : s.packetLock + s.importer.holds + s.tester.holds = 1
  buffer : s.buffer + 1 = s.storages.length
  order : s.delivered ++ s.tester.replaced = List.range s.buffer
  fill : ∀ buf calls records, s.importer = .fill buf calls records → buf = s.buffer
  taken : ∀ ret, s.tester = .replace ret → ret = s.buffer
  begun : s.batches.flatten = s.begun
  content : s.storages.modify s.buffer (· ++ s.importer.rest) = s.batches.map contentOf

theorem contentOf_append (batches more : List Batch) :
    contentOf (batches ++ more) = contentOf batches ++ contentOf more := by
  rw [contentOf, contentOf, contentOf, List.flatten_append, List.flatten_append]

theorem contentOf_singleton (batch : Batch) : contentOf [batch] = batch.flatten := by
  rw [contentOf, List.flatten_singleton]

theorem contentOf_flatten (groups : List (List Batch)) :
    contentOf groups.flatten = (groups.map contentOf).flatten := by
  induction groups with
  | nil => rfl
  | cons group groups ih =>
    rw [List.flatten_cons, contentOf_append, ih, List.map_cons, List.flatten_cons]

theorem modify_append_nil {α : Type} (xs : List (List α)) (i : Nat) :
    xs.modify i (· ++ []) = xs := by
  simp only [List.append_nil]
  exact List.modify_id i xs

theorem eq_concat {α : Type} {xs : List α} {i : Nat} (hi : i + 1 = xs.length) :
    ∃ ys a, xs = ys ++ [a] ∧ ys.length = i := by
  rcases List.eq_nil_or_concat xs with rfl | ⟨ys, a, rfl⟩
  · cases hi
  · exact ⟨ys, a, List.concat_eq_append, by simpa using hi.symm⟩

section Steps

variable {s s' : Buffered} {op : BufferedOp}

theorem Buffered.Inv.length (h : s.Inv) : s.batches.length = s.storages.length := by
  have := congrArg List.length h.content
  simpa using this.symm

theorem Buffered.Inv.work (h : s.Inv) (hs : s.work = some s') : s'.Inv := by
  have hlength := h.length
  obtain ⟨hlock, hbuffer, horder, hfill, htaken, hbegun, hcontent⟩ := h
  unfold Buffered.work at hs
  cases hi : s.importer with
  | idle => simp [hi] at hs
  | lock batch =>
    rw [hi] at hlock hcontent
    simp only [hi] at hs
    split at hs
    · cases hs
      simp only [ImporterPc.rest, modify_append_nil] at hcontent
      obtain ⟨ys, bs, hys, hlen⟩ := eq_concat (hbuffer.trans hlength.symm)
      have hmodify : s.batches.modify s.buffer (· ++ [batch]) = ys ++ [bs ++ [batch]] := by
        rw [hys, ← hlen, modify_last]
      refine ⟨?_, hbuffer, horder, by simp, htaken, ?_, ?_⟩
      · simp at hlock ⊢
        omega
      · rw [hmodify, ← hbegun, hys]
        simp
      · show s.storages.modify s.buffer (· ++ batch.flatten) = _
        rw [hmodify, hcontent, hys, List.map_append, List.map_append, List.map_singleton,
          List.map_singleton,
          contentOf_append, contentOf_singleton, ← hlen, ← List.length_map (f := contentOf),
            modify_last]
    · cases hs
  | next records =>
    rw [hi] at hlock hcontent
    cases records with
    | nil =>
      simp only [hi] at hs
      cases hs
      exact ⟨hlock, hbuffer, horder, by simp, htaken, hbegun, hcontent⟩
    | cons calls records =>
      simp only [hi] at hs
      cases hs
      refine ⟨hlock, hbuffer, horder, ?_, htaken, hbegun, hcontent⟩
      intro buf calls' records' hbuf
      cases hbuf
      rfl
  | fill buf calls records =>
    rw [hi] at hlock hcontent
    have hbuf : buf = s.buffer := hfill buf calls records hi
    cases calls with
    | nil =>
      simp only [hi] at hs
      cases hs
      exact ⟨hlock, hbuffer, horder, by simp, htaken, hbegun, hcontent⟩
    | cons c calls =>
      simp only [hi] at hs
      cases hs
      refine ⟨hlock, ?_, horder, ?_, htaken, hbegun, ?_⟩
      · simpa using hbuffer
      · intro buf' calls' records' hbuf'
        cases hbuf'
        exact hbuf
      · rw [hbuf, ← hcontent, List.modify_modify_eq]
        refine congrArg (s.storages.modify s.buffer) (funext fun made => ?_)
        simp
  | unlock =>
    rw [hi] at hlock hcontent
    simp only [hi] at hs
    cases hs
    refine ⟨?_, hbuffer, horder, by simp, htaken, hbegun, hcontent⟩
    simp at hlock ⊢
    omega

theorem Buffered.Inv.test (h : s.Inv) (hs : s.test = some s') : s'.Inv := by
  have hlength := h.length
  obtain ⟨hlock, hbuffer, horder, hfill, htaken, hbegun, hcontent⟩ := h
  unfold Buffered.test at hs
  cases ht : s.tester with
  | idle =>
    rw [ht] at hlock horder
    simp only [ht] at hs
    split at hs
    · cases hs
      refine ⟨?_, hbuffer, horder, hfill, by simp, hbegun, hcontent⟩
      simp at hlock ⊢
      omega
    · cases hs
  | take =>
    rw [ht] at hlock horder
    simp only [ht] at hs
    cases hs
    refine ⟨hlock, hbuffer, horder, hfill, ?_, hbegun, hcontent⟩
    intro ret hret
    cases hret
    rfl
  | replace ret =>
    rw [ht] at hlock horder
    simp only [ht] at hs
    cases hs
    have hret : ret = s.buffer := htaken ret ht
    -- the work thread has no storage while the test thread has the mutex
    have hidle : s.importer.holds = 0 := by
      have hlock : s.packetLock + s.importer.holds + 1 = 1 := hlock
      omega
    have hrest : s.importer.rest = [] := by
      cases hi : s.importer with
      | idle => rfl
      | lock => rfl
      | _ => simp [hi] at hidle
    refine ⟨hlock, ?_, ?_, ?_, by simp, ?_, ?_⟩
    · simp
    · simp only [TesterPc.replaced, List.append_nil] at horder
      show s.delivered ++ [ret] = List.range s.storages.length
      rw [horder, hret, ← hbuffer, List.range_succ]
    · intro buf calls records hi
      simp [show s.importer = .fill buf calls records from hi] at hidle
    · rw [List.flatten_append, hbegun]
      simp
    · show (s.storages ++ [[]]).modify s.storages.length (· ++ s.importer.rest) = _
      rw [hrest, modify_append_nil] at hcontent ⊢
      rw [hcontent]
      simp [contentOf]
  | unlock ret =>
    rw [ht] at hlock horder
    simp only [ht] at hs
    cases hs
    refine ⟨?_, hbuffer, by simpa using horder, hfill, by simp, hbegun, hcontent⟩
    simp at hlock ⊢
    omega

theorem Buffered.inv_reachable (h : bufferedFiles.Reachable s) : s.Inv := by
  refine LTS.Inductive.reachable (I := Buffered.Inv) ⟨?_, ?_⟩ s h
  · intro s hs
    cases hs
    exact ⟨rfl, rfl, rfl, by simp [Buffered.init], by simp [Buffered.init], rfl, rfl⟩
  · intro s op s' h hs
    cases op with
    | importToStorage batch =>
      unfold bufferedFiles LTS.ofStep Buffered.step at hs
      simp only at hs
      split at hs
      · rename_i hi
        cases hs
        obtain ⟨hlock, hbuffer, horder, hfill, htaken, hbegun, hcontent⟩ := h
        rw [hi] at hlock hcontent
        exact ⟨hlock, hbuffer, horder, by simp, htaken, hbegun, hcontent⟩
      · cases hs
    | work => exact h.work hs
    | test => exact h.test hs

theorem Buffered.Inv.delivered_lt (h : s.Inv) {ret : Nat} (hret : ret ∈ s.delivered) :
    ret < s.buffer := by
  rw [← List.mem_range, ← h.order]
  exact List.mem_append_left _ hret

/-- Steps change the storage in `buffer` only. -/
theorem Buffered.Inv.keeps (h : s.Inv) (hs : s.step op = some s') {ret : Nat} (hret : ret < s.buffer) :
    s'.storages[ret]? = s.storages[ret]? ∧ s'.batches[ret]? = s.batches[ret]? := by
  have hlt : ret < s.storages.length := Nat.lt_of_lt_of_le hret (h.buffer ▸ Nat.le_succ _)
  cases op with
  | importToStorage batch =>
    simp only [Buffered.step] at hs
    split at hs
    · cases hs
      exact ⟨rfl, rfl⟩
    · cases hs
  | work =>
    have hs : s.work = some s' := hs
    unfold Buffered.work at hs
    split at hs
    · cases hs
    · split at hs
      · cases hs
        exact ⟨rfl, List.getElem?_modify_ne _ _ (Nat.ne_of_gt hret)⟩
      · cases hs
    · cases hs
      exact ⟨rfl, rfl⟩
    · cases hs
      exact ⟨rfl, rfl⟩
    · rename_i buf c calls records hi
      cases hs
      rw [h.fill buf _ _ hi]
      exact ⟨List.getElem?_modify_ne _ _ (Nat.ne_of_gt hret), rfl⟩
    · cases hs
      exact ⟨rfl, rfl⟩
    · cases hs
      exact ⟨rfl, rfl⟩
  | test =>
    have hs : s.test = some s' := hs
    unfold Buffered.test at hs
    split at hs
    · split at hs
      · cases hs
        exact ⟨rfl, rfl⟩
      · cases hs
    · cases hs
      exact ⟨rfl, rfl⟩
    · cases hs
      exact ⟨List.getElem?_append_left hlt, List.getElem?_append_left (h.length.symm ▸ hlt)⟩
    · cases hs
      exact ⟨rfl, rfl⟩

/-- A storage that is not `buffer` any more holds the batches that were imported meanwhile. -/
theorem Buffered.Inv.stored (h : s.Inv) {ret : Nat} (hret : ret < s.buffer) :
    s.storages[ret]? = s.batches[ret]?.map contentOf := by
  have := congrArg (·[ret]?) h.content
  simp only [List.getElem?_map] at this
  rw [← this, List.getElem?_modify_ne _ _ (Nat.ne_of_gt hret)]

end Steps

/-! ## Handing over -/

section HandOver

variable {s : Buffered}

/-- A storage is taken between two batches. -/
def twoBatches : List BufferedOp :=
  [.importToStorage [[.recordStart 7, .recordEnd], [.recordStart 8]]] ++ List.replicate 10 .work ++
    [.importToStorage [[.recordStart 9]]] ++ List.replicate 4 .test ++ List.replicate 3 .work

def afterTwoBatches : Buffered :=
  (LTS.exec (fun _ _ => True) Buffered.step .init twoBatches).get (by decide)

theorem reachable_afterTwoBatches : bufferedFiles.Reachable afterTwoBatches :=
  (Buffered.reachable_exec (G := fun _ _ => True) (Option.some_get _).symm).of_restrict

/-- In every interleaving: the storages are returned in order, each once, and are changed no more; a
returned storage holds whole batches, those imported since the one before, and all batches are
distributed over the storages in the order of their import, the last one up to what is still to be
handed over. -/
theorem batches_handed_over (h : bufferedFiles.Reachable s) :
    s.delivered ++ s.tester.replaced = List.range s.buffer ∧
    (∀ ret ∈ s.delivered, s.storages[ret]? = s.batches[ret]?.map contentOf) ∧
    s.batches.flatten = s.begun ∧
    s.storages.flatten ++ s.importer.rest = contentOf s.begun ∧
    ∀ op s', s.step op = some s' → ∀ ret ∈ s.delivered,
      s'.storages[ret]? = s.storages[ret]? ∧ s'.batches[ret]? = s.batches[ret]? := by
  have hinv := Buffered.inv_reachable h
  refine ⟨hinv.order, fun ret hret => hinv.stored (hinv.delivered_lt hret), hinv.begun, ?_,
    fun op s' hs ret hret => hinv.keeps hs (hinv.delivered_lt hret)⟩
  obtain ⟨ys, made, hys, hlen⟩ := eq_concat hinv.buffer
  have hcontent := congrArg List.flatten hinv.content
  rw [hys, ← hlen, modify_last, List.flatten_append, List.flatten_singleton, ← List.append_assoc] at hcontent
  rw [hys, List.flatten_append, List.flatten_singleton, hcontent, ← hinv.begun, contentOf_flatten]

theorem batches_handed_over_twoBatches :
    afterTwoBatches.delivered = [0] ∧ afterTwoBatches.begun.length = 2 ∧
      afterTwoBatches.storages.flatten ++ afterTwoBatches.importer.rest = contentOf afterTwoBatches.begun :=
  ⟨by decide, by decide, (batches_handed_over reachable_afterTwoBatches).2.2.2.1⟩

/-- A thread that waits for `packetLock` waits for the other one, which can go on. -/
theorem buffered_proceeds (h : bufferedFiles.Reachable s) :
    (s.importer = .idle ∨ s.work.isSome = true ∨ s.tester.holds = 1 ∧ s.test.isSome = true) ∧
    (s.test.isSome = true ∨ s.importer.holds = 1 ∧ s.work.isSome = true) := by
  have hlock := (Buffered.inv_reachable h).packetLock
  have htest : s.tester.holds = 1 → s.test.isSome = true := by
    intro hholds
    cases ht : s.tester with
    | idle => simp [ht] at hholds
    | _ => simp [Buffered.test, ht]
  have hwork : s.importer.holds = 1 → s.work.isSome = true := by
    intro hholds
    cases hi : s.importer with
    | idle => simp [hi] at hholds
    | lock => simp [hi] at hholds
    | next records => cases records <;> simp [Buffered.work, hi]
    | fill buf calls records => cases calls <;> simp [Buffered.work, hi]
    | unlock => simp [Buffered.work, hi]
  by_cases hfree : 0 < s.packetLock
  · have hzero : s.importer.holds = 0 ∧ s.tester.holds = 0 := by omega
    constructor
    · cases hi : s.importer with
      | idle => exact .inl rfl
      | lock batch => exact .inr (.inl (by simp [Buffered.work, hi, hfree]))
      | _ => simp [hi] at hzero
    · cases ht : s.tester with
      | idle => exact .inl (by simp [Buffered.test, ht, hfree])
      | _ => simp [ht] at hzero
  · have hone : s.importer.holds = 1 ∨ s.tester.holds = 1 := by omega
    rcases hone with hholds | hholds
    · exact ⟨.inr (.inl (hwork hholds)), .inr ⟨hholds, hwork hholds⟩⟩
    · exact ⟨.inr (.inr ⟨hholds, htest hholds⟩), .inl (htest hholds)⟩

theorem buffered_proceeds_twoBatches :
    afterTwoBatches.test = none ∧ (afterTwoBatches.test.isSome = true ∨
      afterTwoBatches.importer.holds = 1 ∧ afterTwoBatches.work.isSome = true) :=
  ⟨by decide, (buffered_proceeds reachable_afterTwoBatches).2⟩

end HandOver

end Topas
