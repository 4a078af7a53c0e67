import Topas.Core.Linked
import Topas.L1Template.TemplateBuffer

/-!
# The template buffer in memory

`concentrator/templateBuffer.c` on nodes with `next` pointers. The union member
of an entry and the arrays in it belong to the entry: the parser allocates them
before it buffers the entry, they are freed with it, and they are part of the
node's value here. `free(bt)` makes the node's address dead; it may be allocated
again.

* `returns_destroyBufferedTemplate`, `returns_getBufferedTemplate`,
  `returns_bufferTemplate`, `returns_destroyTemplateBuffer`: each operation ends
  without using a dangling pointer and does to the list of entries what its
  namesake in `L1Template.TemplateBuffer` does.
* `Leaves`: of the nodes in the list, those that leave it are dead afterwards, and
  nothing else is touched.
-/
namespace Topas

open Proc NodeHeap

/-- The nodes and `templateBuffer->head`. -/
structure BufferHeap where
  heap : NodeHeap BufferedTemplate
  head : Ptr

namespace BufferHeap

variable (P : IpfixParser) (b : BufferHeap)

/-- mirrors concentrator/templateBuffer.c:66-147 -/
def destroyBufferedTemplate (sourceId templateId : Nat) : Proc Event BufferHeap := do
  let s ← seek b.heap (fun bt => decide (bt.key = (sourceId, templateId))) ⟨none, b.head, false⟩
  if s.p = none then pure b
  else do
    let bt ← deref b.heap s.p
    let (heap, head) ← splice b.heap b.head s.predecessor bt.next
    Proc.tell (P.destroyed bt.val)
    let heap ← free heap s.p
    pure ⟨heap, head⟩

/-- The result is a pointer into the buffer. The loop of the source is `seek`
without the trailing pointer.
mirrors concentrator/templateBuffer.c:35-50 -/
def getBufferedTemplate (now : Int) (sourceId templateId : Nat) :
    Proc Event (BufferHeap × Ptr) := do
  let s ← seek b.heap (fun bt => decide (bt.key = (sourceId, templateId))) ⟨none, b.head, false⟩
  if s.p = none then pure (b, none)
  else do
    let bt ← deref b.heap s.p
    if bt.val.expires ≠ 0 ∧ bt.val.expires < now then do
      let b ← destroyBufferedTemplate P b sourceId templateId
      pure (b, none)
    else pure (b, s.p)

/-- mirrors concentrator/templateBuffer.c:55-61 -/
def bufferTemplate (p : Ptr) : Proc Event BufferHeap := do
  let bt ← deref b.heap p
  let b ← destroyBufferedTemplate P b bt.val.sourceID bt.val.templateID
  let heap ← setNext b.heap p b.head
  let heap ← modify heap p fun n => { n with val := { n.val with expires := 0 } }
  pure ⟨heap, p⟩

/-- One round of the loop of `destroyTemplateBuffer`. -/
def destroyFirst : Proc Event BufferHeap := do
  let bt ← deref b.heap b.head
  let b ← destroyBufferedTemplate P b bt.val.sourceID bt.val.templateID
  pure { b with head := bt.next }

/-- mirrors concentrator/templateBuffer.c:164-172 -/
def destroyTemplateBuffer : Proc Event BufferHeap :=
  Proc.loop (fun b => b.head.isSome) (destroyFirst P) b

/-! ## What the operations do -/

/-- The nodes `xs` without the first one with key `k`. -/
def unlinkNode (xs : List (Nat × BufferedTemplate)) (k : Nat × Nat) :
    List (Nat × BufferedTemplate) :=
  xs.eraseP fun y => decide (y.2.key = k)

theorem map_unlinkNode (xs : List (Nat × BufferedTemplate)) (k : Nat × Nat) :
    (unlinkNode xs k).map Prod.snd = TemplateBuffer.unlink (xs.map Prod.snd) k := by
  unfold unlinkNode TemplateBuffer.unlink
  rw [List.eraseP_map]; rfl

variable {P b} {xs : List (Nat × BufferedTemplate)} {sourceId templateId : Nat}

/-- The node with a key, if there is one. -/
theorem split_node (xs : List (Nat × BufferedTemplate)) (k : Nat × Nat) :
    (∀ y ∈ xs, decide (y.2.key = k) = false) ∨
      ∃ us a bt vs, xs = us ++ (a, bt) :: vs ∧ (∀ y ∈ us, decide (y.2.key = k) = false) ∧
        bt.key = k := by
  induction xs with
  | nil => exact .inl fun y hy => nomatch hy
  | cons x xs ih =>
    by_cases hx : x.2.key = k
    · exact .inr ⟨[], x.1, x.2, xs, rfl, (fun y hy => nomatch hy), hx⟩
    · rcases ih with h | ⟨us, a, bt, vs, rfl, h, hk⟩
      · refine .inl fun y hy => ?_
        rcases List.mem_cons.mp hy with rfl | hy
        · exact decide_eq_false hx
        · exact h y hy
      · refine .inr ⟨x :: us, a, bt, vs, rfl, fun y hy => ?_, hk⟩
        rcases List.mem_cons.mp hy with rfl | hy
        · exact decide_eq_false hx
        · exact h y hy

theorem find_absent {k : Nat × Nat} (h : ∀ y ∈ xs, decide (y.2.key = k) = false) :
    TemplateBuffer.find (xs.map Prod.snd) k = none ∧ unlinkNode xs k = xs := by
  refine ⟨TemplateBuffer.find_eq_none.mpr fun bt hbt => ?_, ?_⟩
  · obtain ⟨y, hy, rfl⟩ := List.mem_map.mp hbt
    exact of_decide_eq_false (h y hy)
  · exact List.eraseP_of_forall_not (by simpa using h)

theorem find_present {k : Nat × Nat} {us vs : List (Nat × BufferedTemplate)} {a : Nat}
    {bt : BufferedTemplate} (h : ∀ y ∈ us, decide (y.2.key = k) = false) (hk : bt.key = k) :
    TemplateBuffer.find ((us ++ (a, bt) :: vs).map Prod.snd) k = some bt ∧
      unlinkNode (us ++ (a, bt) :: vs) k = us ++ vs := by
  induction us with
  | nil =>
    refine ⟨?_, List.eraseP_cons_of_pos (by simpa using hk)⟩
    rw [List.nil_append, List.map_cons, TemplateBuffer.find_cons, if_pos hk]
  | cons y us ih =>
    have hy := h y List.mem_cons_self
    obtain ⟨h1, h2⟩ := ih fun z hz => h z (List.mem_cons_of_mem y hz)
    refine ⟨?_, ?_⟩
    · rw [List.cons_append, List.map_cons, TemplateBuffer.find_cons,
        if_neg (of_decide_eq_false hy), h1]
    · rw [List.cons_append, List.cons_append, ← h2]
      exact List.eraseP_cons_of_neg (by simpa using hy)

/-- What an operation does to memory: the nodes in the list are `ys`, those of `xs`
that are not are dead, no other node is touched. -/
structure Leaves (b : BufferHeap) (xs : List (Nat × BufferedTemplate)) (b' : BufferHeap)
    (ys : List (Nat × BufferedTemplate)) : Prop where
  linked : b'.heap.Linked b'.head ys
  dead : ∀ a, a ∈ xs.map Prod.fst → a ∉ ys.map Prod.fst → b'.heap a = none
  frame : ∀ a, a ∉ xs.map Prod.fst → b'.heap a = b.heap a

theorem Leaves.refl (h : b.heap.Linked b.head xs) : Leaves b xs b xs :=
  ⟨h, fun _ h h' => absurd h h', fun _ _ => rfl⟩

theorem returns_destroyBufferedTemplate (h : b.heap.Linked b.head xs) :
    ∃ b', (destroyBufferedTemplate P b sourceId templateId).Returns
        (P.lost (xs.map Prod.snd) (sourceId, templateId)) b' ∧
      Leaves b xs b' (unlinkNode xs (sourceId, templateId)) := by
  unfold IpfixParser.lost destroyBufferedTemplate
  rcases split_node xs (sourceId, templateId) with hno | ⟨us, a, bt, vs, rfl, hus, hk⟩
  · obtain ⟨hf, hu⟩ := find_absent hno
    rw [hf, hu]
    exact ⟨b, (returns_seek_none h hno).then (by simp), .refl h⟩
  · obtain ⟨hf, hu⟩ := @find_present _ us vs a bt hus hk
    rw [hf, hu]
    obtain ⟨next, H, head, ha, hsplice, hlink, hframe⟩ := @returns_splice _ Event _ _ _ _ _ _ h
    have hne := h.ne
    refine ⟨⟨H.write a none, head⟩, ?_, hlink.write hne, ?_, ?_⟩
    · have hfree : (free H (some a) : Proc Event _).Returns [] (H.write a none) :=
        returns_free ((hframe a fun y hy => hne y (List.mem_append_left _ hy)).trans ha)
      refine (returns_seek_found h hus (decide_eq_true hk)).then ?_
      rw [if_neg (by simp)]
      have htell : (Proc.tell (P.destroyed bt)).Returns (P.destroyed bt) () := returns_tell.mpr rfl
      exact (returns_deref ha).then (hsplice.then (htell.last (hfree.last (by simp))))
    · intro d hd hd'
      have hda : d = a := by
        simp only [List.map_append, List.map_cons, List.mem_append, List.mem_cons] at hd hd'
        rcases hd with hd | rfl | hd
        · exact absurd (.inl hd) hd'
        · rfl
        · exact absurd (.inr hd) hd'
      exact hda ▸ write_same _ _ _
    · intro d hd
      have hds : ∀ y ∈ us ++ (a, bt) :: vs, y.1 ≠ d := fun y hy he =>
        hd (List.mem_map.mpr ⟨y, hy, he⟩)
      exact (write_other _ _ (hds (a, bt) (by simp)).symm).trans
        (hframe d fun y hy => hds y (List.mem_append_left _ hy))

/-- The pointer that a lookup returns is to the entry that it finds. -/
theorem returns_getBufferedTemplate {now : Int} (h : b.heap.Linked b.head xs) :
    ∃ l b' ys p, (getBufferedTemplate P b now sourceId templateId).Returns l (b', p) ∧
      (Topas.getBufferedTemplate P now (xs.map Prod.snd) sourceId templateId).Returns l
        (ys.map Prod.snd, (p.bind b'.heap).map Node.val) ∧
      Leaves b xs b' ys := by
  unfold getBufferedTemplate Topas.getBufferedTemplate
  rcases split_node xs (sourceId, templateId) with hno | ⟨us, a, bt, vs, rfl, hus, hkey⟩
  · obtain ⟨hf, -⟩ := find_absent hno
    rw [hf]
    exact ⟨[], b, xs, none, (returns_seek_none h hno).then (by simp), by simp, .refl h⟩
  · obtain ⟨hf, hu⟩ := @find_present _ us vs a bt hus hkey
    obtain ⟨r, -, hr, next, ha, -⟩ := segment_append.mp h
    rw [hf]
    simp only
    split
    · rename_i hexp
      obtain ⟨b', hd, hl⟩ := @returns_destroyBufferedTemplate P b _ sourceId templateId h
      refine ⟨P.lost ((us ++ (a, bt) :: vs).map Prod.snd) (sourceId, templateId), b',
        unlinkNode (us ++ (a, bt) :: vs) (sourceId, templateId), none, ?_, ?_, hl⟩
      · refine (returns_seek_found h hus (decide_eq_true hkey)).then ?_
        rw [if_neg (by simp)]
        refine (returns_deref ha).then ?_
        rw [if_pos hexp]
        exact hd.last (by simp)
      · rw [map_unlinkNode]
        exact Topas.returns_destroyBufferedTemplate.last (by simp)
    · rename_i hexp
      refine ⟨[], b, us ++ (a, bt) :: vs, some a, ?_, by simp [ha], .refl h⟩
      refine (returns_seek_found h hus (decide_eq_true hkey)).then ?_
      rw [if_neg (by simp)]
      refine (returns_deref ha).then ?_
      rw [if_neg hexp]
      simp

/-- Live nodes stay in the list. -/
theorem Leaves.live {b' : BufferHeap} {ys : List (Nat × BufferedTemplate)} (h : Leaves b xs b' ys)
    {a : Nat} {n : Node BufferedTemplate} (hb : ∀ m, b.heap a = some m → a ∈ xs.map Prod.fst)
    (ha : b'.heap a = some n) : a ∈ ys.map Prod.fst := by
  refine Classical.byContradiction fun hno => ?_
  by_cases hx : a ∈ xs.map Prod.fst
  · rw [h.dead a hx hno] at ha
    cases ha
  · rw [h.frame a hx] at ha
    exact hx (hb n ha)

/-- The entry stands at a fresh address that only the caller knows. -/
theorem returns_bufferTemplate {a : Nat} {bt : BufferedTemplate} {next : Ptr}
    (h : b.heap.Linked b.head xs) (ha : b.heap a = none) :
    ∃ b' ys, (bufferTemplate P ⟨b.heap.write a (some ⟨bt, next⟩), b.head⟩ (some a)).Returns
        (P.lost (xs.map Prod.snd) bt.key) b' ∧
      b'.heap.Linked b'.head ys ∧
      ys.map Prod.snd = { bt with expires := 0 } :: TemplateBuffer.unlink (xs.map Prod.snd) bt.key ∧
      ((∀ a n, b.heap a = some n → a ∈ xs.map Prod.fst) →
        ∀ a n, b'.heap a = some n → a ∈ ys.map Prod.fst) := by
  have hxs : ∀ y ∈ xs, y.1 ≠ a := by
    intro y hy he
    obtain ⟨n, hn⟩ := h.live hy
    rw [he, ha] at hn
    cases hn
  have ha' : a ∉ xs.map Prod.fst := by
    intro hm
    obtain ⟨y, hy, he⟩ := List.mem_map.mp hm
    exact hxs y hy he
  obtain ⟨b', hd, hl⟩ := @returns_destroyBufferedTemplate P
    ⟨b.heap.write a (some ⟨bt, next⟩), b.head⟩ xs bt.sourceID bt.templateID (h.write hxs)
  have hat : b'.heap a = some ⟨bt, next⟩ := (hl.frame a ha').trans (write_same _ _ _)
  have hys : ∀ y ∈ unlinkNode xs (bt.sourceID, bt.templateID), y.1 ≠ a :=
    fun y hy => hxs y (List.mem_of_mem_eraseP hy)
  refine
    ⟨⟨(b'.heap.write a (some ⟨bt, b'.head⟩)).write a (some ⟨{ bt with expires := 0 }, b'.head⟩),
    some a⟩, (a, { bt with expires := 0 }) :: unlinkNode xs (bt.sourceID, bt.templateID),
      ?_, ?_, ?_, ?_⟩
  · refine (returns_deref (write_same _ _ _)).then (hd.last ((returns_setNext hat _).then ?_))
    exact (returns_modify (write_same _ _ _) _).last (by simp)
  · exact ⟨rfl, b'.head, write_same _ _ _, (hl.linked.write hys).write hys⟩
  · rw [List.map_cons, map_unlinkNode]; rfl
  · intro hb d n hn
    rw [List.map_cons, List.mem_cons]
    by_cases hda : d = a
    · exact .inl hda
    · have hn' : b'.heap d = some n := by
        rw [← hn]
        exact ((write_other _ _ hda).trans (write_other _ _ hda)).symm
      refine .inr (hl.live (fun m hm => hb d m ?_) hn')
      rw [← hm]
      exact (write_other _ _ hda).symm

theorem returns_destroyFirst {y : Nat × BufferedTemplate} (h : b.heap.Linked b.head (y :: xs)) :
    ∃ b', (destroyFirst P b).Returns (P.destroyed y.2) b' ∧ Leaves b (y :: xs) b' xs := by
  obtain ⟨a, bt⟩ := y
  obtain ⟨hhead, next, ha, hrest⟩ := h
  obtain ⟨hf, hu⟩ : TemplateBuffer.find (((a, bt) :: xs).map Prod.snd)
    (bt.sourceID, bt.templateID) =
        some bt ∧ unlinkNode ((a, bt) :: xs) (bt.sourceID, bt.templateID) = xs :=
    @find_present bt.key [] xs a bt (fun y hy => nomatch hy) rfl
  have hlink : b.heap.Linked b.head ((a, bt) :: xs) := ⟨hhead, next, ha, hrest⟩
  obtain ⟨b', hd, hl⟩ := @returns_destroyBufferedTemplate P b _ bt.sourceID bt.templateID hlink
  rw [IpfixParser.lost, hf] at hd
  rw [hu] at hl
  have hnext : b'.head = next := hl.linked.head_eq hrest
  refine ⟨{ b' with head := next }, ?_, hnext ▸ hl.linked, hl.dead, hl.frame⟩
  unfold destroyFirst
  rw [hhead]
  exact (returns_deref ha).then (hd.last (by simp))

theorem returns_destroyTemplateBuffer (h : b.heap.Linked b.head xs) :
    ∃ b', (destroyTemplateBuffer P b).Returns ((xs.map Prod.snd).flatMap P.destroyed) b' ∧
      Leaves b xs b' [] := by
  induction xs generalizing b with
  | nil =>
    have hhead : b.head = none := h
    exact ⟨b, (returns_loop_done (by rw [hhead]; rfl)).mpr ⟨rfl, rfl⟩, .refl h⟩
  | cons y xs ih =>
    obtain ⟨b1, hr1, hl1⟩ := @returns_destroyFirst P b xs y h
    obtain ⟨b', hr, hl⟩ := ih hl1.linked
    refine ⟨b', (returns_loop_step (by rw [h.1]; rfl)).mpr (hr1.bind hr), hl.linked, ?_, ?_⟩
    · intro a ha hno
      by_cases hx : a ∈ xs.map Prod.fst
      · exact hl.dead a hx hno
      · rw [hl.frame a hx, hl1.dead a ha hx]
    · intro a ha
      have hx : a ∉ xs.map Prod.fst := fun hx => ha (List.mem_cons_of_mem _ hx)
      rw [hl.frame a hx, hl1.frame a ha]

end BufferHeap

end Topas
