import Topas.Core.LTS
import Topas.L1Template.BufferHeap

/-!
# The template buffer is a finite map

`bufferOps` is the template buffer as a transition system over the operations of
`concentrator/templateBuffer.c`, at any clock values and with any expiry times
written into entries. `content` is what a list of operations says is buffered:
each operation changes the entry of one key.

`Account` is the invariant on the list of entries: unique keys, the content, and
the books: what was ever buffered is what is in the list and what is gone, and the
log is the destruction callbacks of what is gone. `bufferOps_finiteMap` carries it
over every run of the operations on pointers.
-/
namespace Topas

open Proc NodeHeap

/-! ## Runs of operations -/

/-- The operations on a template buffer. `get` carries what the returned pointer
points to; `expire` sets the expiry time of an entry through such a pointer. -/
inductive BufferOp where
  | buffer (bt : BufferedTemplate)
  | get (sourceId templateId : Nat) (now : Int) (result : Option BufferedTemplate)
  | destroy (sourceId templateId : Nat)
  | expire (sourceId templateId : Nat) (t : Int)
  | destroyAll

/-- A template buffer, whether it is allocated, and what has been called back. -/
structure BufferState where
  b : BufferHeap
  alive : Bool
  log : List Event

/-- `malloc` returns an address that is not live; the `next` pointer of a fresh
node is not initialised. -/
inductive BufferStep (P : IpfixParser) : BufferState → BufferOp → BufferState → Prop
  | buffer {b b' : BufferHeap} {log l : List Event} {bt : BufferedTemplate} {a : Nat} {next : Ptr} :
      bt.Tagged → b.heap a = none →
      (BufferHeap.bufferTemplate P ⟨b.heap.write a (some ⟨bt, next⟩), b.head⟩ (some a)).Returns
        l b' →
      BufferStep P ⟨b, true, log⟩ (.buffer bt) ⟨b', true, log ++ l⟩
  | get {b b' : BufferHeap} {log l : List Event} {sourceId templateId : Nat} {now : Int} {p : Ptr} :
      (BufferHeap.getBufferedTemplate P b now sourceId templateId).Returns l (b', p) →
      BufferStep P ⟨b, true, log⟩ (.get sourceId templateId now ((p.bind b'.heap).map Node.val))
        ⟨b', true, log ++ l⟩
  | destroy {b b' : BufferHeap} {log l : List Event} {sourceId templateId : Nat} :
      (BufferHeap.destroyBufferedTemplate P b sourceId templateId).Returns l b' →
      BufferStep P ⟨b, true, log⟩ (.destroy sourceId templateId) ⟨b', true, log ++ l⟩
  | expire {b : BufferHeap} {log : List Event} {a : Nat} {n : Node BufferedTemplate} {t : Int} :
      b.heap a = some n →
      BufferStep P ⟨b, true, log⟩ (.expire n.val.sourceID n.val.templateID t)
        ⟨⟨b.heap.write a (some { n with val := { n.val with expires := t } }), b.head⟩, true, log⟩
  | destroyAll {b b' : BufferHeap} {log l : List Event} :
      (BufferHeap.destroyTemplateBuffer P b).Returns l b' →
      BufferStep P ⟨b, true, log⟩ .destroyAll ⟨b', false, log ++ l⟩

/-- Starts with what `createTemplateBuffer` returns. -/
def bufferOps (P : IpfixParser) : LTS BufferState BufferOp where
  init s := s = ⟨⟨fun _ => none, none⟩, true, []⟩
  step := BufferStep P

/-! ## The finite map -/

/-- What the operations so far say is buffered. -/
abbrev Content := Nat × Nat → Option BufferedTemplate

/-- As `bufferTemplate` leaves it: without an expiry time. -/
def BufferedTemplate.unexpiring (bt : BufferedTemplate) : BufferedTemplate :=
    { bt with expires := 0 }

def BufferedTemplate.expiredAt (now : Int) (bt : BufferedTemplate) : Bool :=
  bt.expires != 0 && decide (bt.expires < now)

/-- Each operation changes the entry of one key. -/
def BufferOp.apply (M : Content) : BufferOp → Content
  | .buffer bt => fun k => if k = bt.key then some bt.unexpiring else M k
  | .get sourceId templateId now _ => fun k =>
    if k = (sourceId, templateId) then (M k).filter (!BufferedTemplate.expiredAt now ·) else M k
  | .destroy sourceId templateId => fun k => if k = (sourceId, templateId) then none else M k
  | .expire sourceId templateId t => fun k =>
    if k = (sourceId, templateId) then (M k).map ({ · with expires := t }) else M k
  | .destroyAll => fun _ => none

def content (ops : List BufferOp) : Content := ops.foldl BufferOp.apply fun _ => none

/-- A lookup returns what is buffered for its key. -/
def BufferOp.Answers (M : Content) : BufferOp → Prop
  | .get sourceId templateId now result =>
    result = (M (sourceId, templateId)).filter (!BufferedTemplate.expiredAt now ·)
  | _ => True

/-- All lookups of a run. -/
def Answered : Content → List BufferOp → Prop
  | _, [] => True
  | M, op :: ops => op.Answers M ∧ Answered (op.apply M) ops

/-- The templates that were ever buffered. -/
def buffered : List BufferOp → List BufferedTemplate
  | [] => []
  | .buffer bt :: ops => bt.unexpiring :: buffered ops
  | _ :: ops => buffered ops

/-- The destruction callback of each type of template. -/
def Info.destructionCall : Info → Call
  | .templateInfo ti => .templateDestruction ti.templateId ti.fieldCount
  | .optionsTemplateInfo ti => .optionsTemplateDestruction ti.templateId ti.scopeCount ti.fieldCount
  | .dataTemplateInfo ti => .dataTemplateDestruction ti.id ti.preceding ti.fieldCount ti.dataCount

theorem destroyed_of_tagged {P : IpfixParser} {bt : BufferedTemplate} (h : bt.Tagged) :
    P.destroyed bt = P.calls bt.sourceID bt.info.destructionCall := by
  unfold BufferedTemplate.Tagged at h
  unfold IpfixParser.destroyed BufferedTemplate.destruction
  cases hi : bt.info <;> simp only [hi] at h <;> simp only [if_pos h, Info.destructionCall]

/-- Entries, content and books agree. -/
structure Account (P : IpfixParser) (M : Content) (bs : List BufferedTemplate) (tb : TemplateBuffer)
    (gone : List BufferedTemplate) (log : List Event) : Prop where
  keyed : tb.Keyed
  find : ∀ k, tb.find k = M k
  tagged : ∀ bt, bt ∈ tb ++ gone → bt.Tagged
  log : log = gone.flatMap P.destroyed
  books : bs.Perm ((tb ++ gone).map BufferedTemplate.unexpiring)

namespace Account

variable {P : IpfixParser} {M : Content} {bs gone : List BufferedTemplate} {tb : TemplateBuffer}
  {log : List Event}

theorem perm_unlink (tb : TemplateBuffer) (k : Nat × Nat) :
    List.Perm tb (tb.unlink k ++ (tb.find k).toList) := by
  induction tb with
  | nil => exact .nil
  | cons bt tb ih =>
    rw [TemplateBuffer.unlink_cons, TemplateBuffer.find_cons]
    split
    · exact (List.perm_append_singleton bt tb).symm
    · exact ih.cons bt

theorem lost_eq (tb : TemplateBuffer) (k : Nat × Nat) :
    P.lost tb k = (tb.find k).toList.flatMap P.destroyed := by
  unfold IpfixParser.lost
  cases tb.find k with
  | none => rfl
  | some bt => exact (List.append_nil _).symm

/-- An entry goes from the list to what is gone. -/
theorem unlink (h : Account P M bs tb gone log) (k : Nat × Nat) :
    Account P (fun k' => if k' = k then none else M k') bs (tb.unlink k)
      (gone ++ (tb.find k).toList) (log ++ P.lost tb k) := by
  have hperm : List.Perm (tb ++ gone) (tb.unlink k ++ (gone ++ (tb.find k).toList)) := by
    have h1 := (perm_unlink tb k).append_right gone
    rw [List.append_assoc] at h1
    exact h1.trans (List.perm_append_comm.append_left _)
  refine ⟨TemplateBuffer.keyed_unlink h.keyed k, fun k' => ?_, fun bt hbt => ?_, ?_, ?_⟩
  · rw [TemplateBuffer.find_unlink h.keyed, h.find]
  · exact h.tagged bt (hperm.mem_iff.mpr hbt)
  · rw [List.flatMap_append, ← lost_eq, ← h.log]
  · exact h.books.trans (hperm.map _)

/-- A template is buffered for a key that is not in use. -/
theorem push {bt : BufferedTemplate} (h : Account P M bs tb gone log) (ht : bt.Tagged)
    (hk : M bt.key = none) :
    Account P (fun k => if k = bt.key then some bt.unexpiring else M k) (bs ++ [bt.unexpiring])
      (bt.unexpiring :: tb) gone log := by
  refine ⟨TemplateBuffer.keyed_cons h.keyed ((h.find _).trans hk), fun k => ?_, fun b hb => ?_,
    h.log, ?_⟩
  · rw [TemplateBuffer.find_cons, h.find]
    by_cases hkey : k = bt.key
    · rw [if_pos hkey]; exact if_pos hkey.symm
    · rw [if_neg hkey]; exact if_neg (Ne.symm hkey)
  · rcases List.mem_cons.mp hb with rfl | hb
    · exact ht
    · exact h.tagged b hb
  · exact (List.perm_append_singleton _ _).trans (h.books.cons _)

/-- The entry of one key gets another expiry time. -/
theorem expire {us vs : List BufferedTemplate} {bt : BufferedTemplate}
    (h : Account P M bs (us ++ bt :: vs) gone log) (t : Int) :
    Account P (fun k => if k = bt.key then (M k).map ({ · with expires := t }) else M k) bs
      (us ++ { bt with expires := t } :: vs) gone log := by
  have hfind : ∀ {us : TemplateBuffer} (k : Nat × Nat), TemplateBuffer.Keyed (us ++ bt :: vs) →
      TemplateBuffer.find (us ++ { bt with expires := t } :: vs) k =
        if k = bt.key then (TemplateBuffer.find (us ++ bt :: vs) k).map ({ · with expires := t })
        else TemplateBuffer.find (us ++ bt :: vs) k := by
    intro us k
    induction us with
    | nil =>
      intro _
      rw [List.nil_append, List.nil_append, TemplateBuffer.find_cons, TemplateBuffer.find_cons]
      by_cases hk : k = bt.key
      · rw [if_pos hk, if_pos hk.symm]; exact if_pos hk.symm
      · rw [if_neg hk, if_neg (Ne.symm hk)]; exact if_neg (Ne.symm hk)
    | cons u us ih =>
      intro hkeyed
      simp only [TemplateBuffer.Keyed, List.cons_append, List.map_cons, List.nodup_cons] at hkeyed
      rw [List.cons_append, List.cons_append, TemplateBuffer.find_cons, TemplateBuffer.find_cons,
        ih hkeyed.2]
      have hne : u.key ≠ bt.key := fun e => hkeyed.1 (by simp [e])
      by_cases hu : u.key = k
      · rw [if_pos hu, if_neg (fun e => hne (hu.trans e)), if_pos hu]
      · rw [if_neg hu, if_neg hu]
  have hkeys : List.map BufferedTemplate.key (us ++ { bt with expires := t } :: vs) =
      List.map BufferedTemplate.key (us ++ bt :: vs) := by
    rw [List.map_append, List.map_append, List.map_cons, List.map_cons]; rfl
  refine ⟨?_, fun k => ?_, fun b hb => ?_, h.log, ?_⟩
  · unfold TemplateBuffer.Keyed
    rw [hkeys]; exact h.keyed
  · rw [hfind k h.keyed, h.find]
  · simp only [List.append_assoc, List.cons_append, List.mem_append, List.mem_cons] at hb
    rcases hb with hb | rfl | hb
    · exact h.tagged b (by simp [hb])
    · exact h.tagged bt (by simp)
    · rcases hb with hb | hb <;> exact h.tagged b (by simp [hb])
  · have := h.books
    simp only [List.map_append, List.map_cons] at this ⊢
    exact this

/-- All entries go, from the first one on. -/
theorem clear (h : Account P M bs tb gone log) :
    Account P (fun _ => none) bs [] (gone ++ tb) (log ++ List.flatMap P.destroyed tb) := by
  refine ⟨List.nodup_nil, fun _ => rfl, fun bt hbt => ?_, ?_, ?_⟩
  · exact h.tagged bt (List.perm_append_comm.mem_iff.mp hbt)
  · rw [List.flatMap_append, ← h.log]
  · exact h.books.trans (List.perm_append_comm.map _)

/-- A lookup may take an entry that has expired. -/
theorem get {sourceId templateId : Nat} {now : Int} {l : List Event} {tb' : TemplateBuffer}
    {result : Option BufferedTemplate} (h : Account P M bs tb gone log)
    (hr : (getBufferedTemplate P now tb sourceId templateId).Returns l (tb', result)) :
    ∃ gone', Account P (fun k => if k = (sourceId, templateId) then
          (M k).filter (!BufferedTemplate.expiredAt now ·) else M k) bs tb' gone' (log ++ l) ∧
      result = (M (sourceId, templateId)).filter (!BufferedTemplate.expiredAt now ·) := by
  have hM := h.find (sourceId, templateId)
  unfold getBufferedTemplate at hr
  rw [← hM]
  have hstays : (TemplateBuffer.find tb (sourceId, templateId)).filter
        (!BufferedTemplate.expiredAt now ·) = TemplateBuffer.find tb (sourceId, templateId) →
      (fun k => if k = (sourceId, templateId) then (M k).filter (!BufferedTemplate.expiredAt now ·)
        else M k) = M := by
    intro hfilter
    funext k
    split
    · rename_i hk
      rw [hk, ← hM]; exact hfilter
    · rfl
  cases hf : TemplateBuffer.find tb (sourceId, templateId) with
  | none =>
    rw [hf] at hr hstays
    simp only [returns_pure, Prod.mk.injEq] at hr
    obtain ⟨rfl, rfl, rfl⟩ := hr
    rw [hstays rfl, List.append_nil]
    exact ⟨gone, h, rfl⟩
  | some bt =>
    rw [hf] at hr hstays
    have hexp : bt.expiredAt now = true ↔ bt.expires ≠ 0 ∧ bt.expires < now := by
      simp [BufferedTemplate.expiredAt]
    by_cases he : bt.expires ≠ 0 ∧ bt.expires < now
    · simp only [if_pos he] at hr
      obtain ⟨l1, tb1, l2, h1, h2, rfl⟩ := returns_bind.mp hr
      obtain ⟨rfl, rfl⟩ := h1.det returns_destroyBufferedTemplate
      simp only [returns_pure, Prod.mk.injEq] at h2
      obtain ⟨rfl, rfl, rfl⟩ := h2
      have hnone : (some bt).filter (!BufferedTemplate.expiredAt now ·) = none := by
        simp [hexp.mpr he]
      have hgone : (fun k => if k = (sourceId, templateId) then
          (M k).filter (!BufferedTemplate.expiredAt now ·) else M k) =
          fun k => if k = (sourceId, templateId) then none else M k := by
        funext k
        split
        · rename_i hk
          rw [hk, ← hM, hf, hnone]
        · rfl
      rw [hgone, List.append_nil, hnone]
      exact ⟨_, h.unlink (sourceId, templateId), rfl⟩
    · simp only [if_neg he, returns_pure, Prod.mk.injEq] at hr
      obtain ⟨rfl, rfl, rfl⟩ := hr
      have hsome : (some bt).filter (!BufferedTemplate.expiredAt now ·) = some bt := by
        have : bt.expiredAt now = false := Bool.eq_false_iff.mpr fun ht => he (hexp.mp ht)
        simp [this]
      rw [hstays hsome, List.append_nil, hsome]
      exact ⟨gone, h, rfl⟩

end Account

/-! ## Over every run -/

/-- What holds after the operations `ops`, with the nodes `xs` in the list. -/
structure BufferInv (P : IpfixParser) (ops : List BufferOp) (s : BufferState)
    (xs : List (Nat × BufferedTemplate)) (gone : List BufferedTemplate) : Prop where
  linked : s.b.heap.Linked s.b.head xs
  live : ∀ a n, s.b.heap a = some n → a ∈ xs.map Prod.fst
  account : Account P (content ops) (buffered ops) (xs.map Prod.snd) gone s.log
  answered : Answered (fun _ => none) ops
  ended : s.alive = false → xs = []

section Runs

variable {P : IpfixParser} {ops : List BufferOp} {op : BufferOp} {s s' : BufferState}
  {xs : List (Nat × BufferedTemplate)} {gone : List BufferedTemplate}

theorem content_concat : content (ops ++ [op]) = op.apply (content ops) :=
  List.foldl_append ..

theorem buffered_append {ops' : List BufferOp} :
    buffered (ops ++ ops') = buffered ops ++ buffered ops' := by
  induction ops with
  | nil => rfl
  | cons op ops ih => cases op <;> simp only [List.cons_append, buffered, ih]

theorem answered_concat {M : Content} :
    Answered M (ops ++ [op]) ↔ Answered M ops ∧ op.Answers (ops.foldl BufferOp.apply M) := by
  induction ops generalizing M with
  | nil => exact ⟨fun h => ⟨trivial, h.1⟩, fun h => ⟨h.2, trivial⟩⟩
  | cons o ops ih => exact (and_congr_right fun _ => ih).trans and_assoc.symm

/-- One operation. -/
theorem bufferInv_step (h : BufferInv P ops s xs gone) (hs : BufferStep P s op s') :
    ∃ xs' gone', BufferInv P (ops ++ [op]) s' xs' gone' := by
  have hacc := h.account
  cases hs with
  | @buffer b b' log l bt a next ht ha hr =>
    obtain ⟨b2, ys, hr2, hlink, hys, hlive⟩ :=
      @BufferHeap.returns_bufferTemplate P b xs a bt next h.linked ha
    obtain ⟨rfl, rfl⟩ := hr.det hr2
    obtain ⟨gone', hacc'⟩ : ∃ gone', Account P (content (ops ++ [.buffer bt]))
        (buffered (ops ++ [.buffer bt])) (ys.map Prod.snd) gone'
            (log ++ P.lost (xs.map Prod.snd) bt.key) := by
      have hM : content (ops ++ [.buffer bt]) = fun k => if k = bt.key then some bt.unexpiring else
          if k = bt.key then none else content ops k := by
        rw [content_concat]
        funext k
        simp only [BufferOp.apply]
        split
        · rfl
        · rfl
      rw [hys, hM, buffered_append]
      exact ⟨_, (hacc.unlink bt.key).push ht (if_pos rfl)⟩
    exact ⟨ys, gone', hlink, hlive h.live, hacc', answered_concat.mpr ⟨h.answered, trivial⟩,
      fun h => nomatch h⟩
  | @get b b' log l sourceId templateId now p hr =>
    obtain ⟨l2, b2, ys, p2, hr2, hlist, hl⟩ :=
      @BufferHeap.returns_getBufferedTemplate P b xs sourceId templateId now h.linked
    obtain ⟨rfl, heq⟩ := hr.det hr2
    obtain ⟨rfl, rfl⟩ := Prod.mk.inj heq
    obtain ⟨gone', hacc', hans⟩ := hacc.get hlist
    refine ⟨ys, gone', hl.linked, fun a n ha => hl.live (h.live a) ha, ?_,
      answered_concat.mpr ⟨h.answered, hans⟩, fun h => nomatch h⟩
    rw [content_concat, buffered_append, show buffered [BufferOp.get sourceId templateId now _] = []
      from rfl, List.append_nil]
    exact hacc'
  | @destroy b b' log l sourceId templateId hr =>
    obtain ⟨b2, hr2, hl⟩ :=
      @BufferHeap.returns_destroyBufferedTemplate P b xs sourceId templateId h.linked
    obtain ⟨rfl, rfl⟩ := hr.det hr2
    have hM : content (ops ++ [.destroy sourceId templateId]) =
        fun k => if k = (sourceId, templateId) then none else content ops k := content_concat
    have hbs : buffered (ops ++ [.destroy sourceId templateId]) = buffered ops :=
      buffered_append.trans (List.append_nil _)
    have hacc' := hacc.unlink (sourceId, templateId)
    rw [← BufferHeap.map_unlinkNode, ← hM, ← hbs] at hacc'
    exact ⟨_, _, hl.linked, fun a n ha => hl.live (h.live a) ha, hacc',
      answered_concat.mpr ⟨h.answered, trivial⟩, fun h => nomatch h⟩
  | @expire b log a n t ha =>
    obtain ⟨⟨a', bt⟩, hmem, rfl⟩ := List.mem_map.mp (h.live a n ha)
    obtain ⟨us, vs, rfl⟩ := List.append_of_mem hmem
    obtain ⟨next, hn⟩ := h.linked.live hmem
    rw [ha, Option.some.injEq] at hn
    subst hn
    refine ⟨us ++ (a', { bt with expires := t }) :: vs, gone, h.linked.update ha _, ?_, ?_,
      answered_concat.mpr ⟨h.answered, trivial⟩, fun h => nomatch h⟩
    · intro d m hd
      have hsame : (us ++ (a', { bt with expires := t }) :: vs).map Prod.fst =
          (us ++ (a', bt) :: vs).map Prod.fst := by simp
      rw [hsame]
      by_cases hda : d = a'
      · rw [hda]; exact List.mem_map_of_mem hmem
      · exact h.live d m ((NodeHeap.write_other _ _ hda).symm.trans hd)
    · rw [content_concat, buffered_append, show buffered [BufferOp.expire bt.sourceID _ t] = []
        from rfl, List.append_nil, List.map_append, List.map_cons]
      rw [List.map_append, List.map_cons] at hacc
      exact hacc.expire t
  | @destroyAll b b' log l hr =>
    obtain ⟨b2, hr2, hl⟩ := @BufferHeap.returns_destroyTemplateBuffer P b xs h.linked
    obtain ⟨rfl, rfl⟩ := hr.det hr2
    refine ⟨[], gone ++ xs.map Prod.snd, hl.linked, fun a n ha => hl.live (h.live a) ha, ?_,
      answered_concat.mpr ⟨h.answered, trivial⟩, fun _ => rfl⟩
    rw [content_concat, buffered_append, show buffered [BufferOp.destroyAll] = [] from rfl,
      List.append_nil]
    exact hacc.clear

theorem bufferInv_run {s0 : BufferState} (hr : (bufferOps P).Run s0 ops s)
    (h0 : (bufferOps P).init s0) :
    ∃ xs gone, BufferInv P ops s xs gone := by
  refine @LTS.Run.traced _ _ _ (fun ops s => ∃ xs gone, BufferInv P ops s xs gone) ?_ _ _ _ [] hr ?_
  · intro ops s op s' ⟨xs, gone, h⟩ hs
    exact bufferInv_step h hs
  · have hs0 : s0 = ⟨⟨fun _ => none, none⟩, true, []⟩ := h0
    subst hs0
    have hempty : Account P (content []) (buffered []) [] [] [] :=
      ⟨List.nodup_nil, fun _ => rfl, (fun _ h => nomatch h), rfl, .nil⟩
    exact ⟨[], [], rfl, (fun _ _ h => nomatch h), hempty, trivial, (fun h => nomatch h)⟩

/-- Every operation on the buffer runs to its end. -/
structure Ready (P : IpfixParser) (s : BufferState) : Prop where
  buffer : ∀ bt, bt.Tagged → ∃ s', (bufferOps P).step s (.buffer bt) s'
  get : ∀ sourceId templateId now, ∃ result s',
    (bufferOps P).step s (.get sourceId templateId now result) s'
  destroy : ∀ sourceId templateId, ∃ s', (bufferOps P).step s (.destroy sourceId templateId) s'
  destroyAll : ∃ s', (bufferOps P).step s .destroyAll s'

/-- Some address is not live. -/
theorem exists_fresh (l : List Nat) : ∃ a, a ∉ l := by
  have hbound : ∃ n, ∀ x ∈ l, x < n := by
    induction l with
    | nil => exact ⟨0, fun x hx => nomatch hx⟩
    | cons y l ih =>
      obtain ⟨n, hn⟩ := ih
      refine ⟨max n (y + 1), fun x hx => ?_⟩
      rcases List.mem_cons.mp hx with rfl | hx
      · omega
      · have := hn x hx; omega
  obtain ⟨n, hn⟩ := hbound
  exact ⟨n, fun h => Nat.lt_irrefl n (hn n h)⟩

theorem ready (h : BufferInv P ops s xs gone) (hs : s.alive = true) : Ready P s := by
  obtain ⟨b, alive, log⟩ := s
  simp only at hs
  subst hs
  refine ⟨fun bt ht => ?_, fun sourceId templateId now => ?_, fun sourceId templateId => ?_, ?_⟩
  · obtain ⟨a, ha⟩ := exists_fresh (xs.map Prod.fst)
    have hfree : b.heap a = none := by
      cases hb : b.heap a with
      | none => rfl
      | some n => exact absurd (h.live a n hb) ha
    obtain ⟨b', ys, hr, -⟩ := @BufferHeap.returns_bufferTemplate P b xs a bt none h.linked hfree
    exact ⟨_, .buffer ht hfree hr⟩
  · obtain ⟨l, b', ys, p, hr, -⟩ :=
      @BufferHeap.returns_getBufferedTemplate P b xs sourceId templateId now h.linked
    exact ⟨_, _, .get hr⟩
  · obtain ⟨b', hr, -⟩ :=
      @BufferHeap.returns_destroyBufferedTemplate P b xs sourceId templateId h.linked
    exact ⟨_, .destroy hr⟩
  · obtain ⟨b', hr, -⟩ := @BufferHeap.returns_destroyTemplateBuffer P b xs h.linked
    exact ⟨_, .destroyAll hr⟩

/-- The live nodes are those of the list, with the entries `tb`. -/
def BufferHeap.Represents (b : BufferHeap) (tb : TemplateBuffer) : Prop :=
  ∃ xs, b.heap.Linked b.head xs ∧ xs.map Prod.snd = tb ∧
    ∀ a n, b.heap a = some n → a ∈ xs.map Prod.fst

/-- After every run of operations: one entry for each key, namely its content; all
lookups returned the content of their key; what was buffered is in the list or gone,
and exactly what is gone was called back, once and as what it is; no operation
gets stuck. -/
theorem bufferOps_finiteMap {s0 : BufferState} (hr : (bufferOps P).Run s0 ops s)
    (h0 : (bufferOps P).init s0) :
    ∃ (tb : TemplateBuffer) (gone : List BufferedTemplate), s.b.Represents tb ∧ tb.Keyed ∧
      (∀ k, tb.find k = content ops k) ∧ Answered (fun _ => none) ops ∧
      (buffered ops).Perm ((tb ++ gone).map BufferedTemplate.unexpiring) ∧
      s.log = gone.flatMap (fun bt => P.calls bt.sourceID bt.info.destructionCall) ∧
      (s.alive = false → tb = []) ∧ (s.alive = true → Ready P s) := by
  obtain ⟨xs, gone, h⟩ := bufferInv_run hr h0
  refine ⟨xs.map Prod.snd, gone, ⟨xs, h.linked, rfl, h.live⟩, h.account.keyed, h.account.find,
    h.answered, h.account.books, ?_, fun ha => by rw [h.ended ha]; rfl, ready h⟩
  have hcalls : ∀ gone : List BufferedTemplate, (∀ bt, bt ∈ gone → bt.Tagged) →
      gone.flatMap P.destroyed = gone.flatMap fun bt =>
          P.calls bt.sourceID bt.info.destructionCall := by
    intro gone
    induction gone with
    | nil => exact fun _ => rfl
    | cons bt gone ih =>
      intro ht
      rw [List.flatMap_cons, List.flatMap_cons, destroyed_of_tagged (ht bt List.mem_cons_self),
        ih fun b hb => ht b (List.mem_cons_of_mem bt hb)]
  rw [h.account.log]
  exact hcalls gone fun bt hbt => h.account.tagged bt (List.mem_append_right _ hbt)

end Runs

/-- A NetFlow v9 template that replaces a template of IPFIX. -/
theorem bufferOps_finiteMap_replace :
    ∃ s, (bufferOps packetReaderParser).Run ⟨⟨fun _ => none, none⟩, true, []⟩
        [.buffer ⟨1, 256, 4, 2, 0, .templateInfo ⟨256, 1, [⟨⟨8, 4, false, 0⟩, 0⟩]⟩⟩,
          .buffer ⟨1, 256, 2, 0, 0, .templateInfo ⟨256, 1, [⟨⟨7, 2, false, 0⟩, 0⟩]⟩⟩] s ∧
      ∃ tb : TemplateBuffer, s.b.Represents tb ∧ tb.Keyed ∧ tb.find (1, 256) =
        some ⟨1, 256, 2, 0, 0, .templateInfo ⟨256, 1, [⟨⟨7, 2, false, 0⟩, 0⟩]⟩⟩ := by
  have hinit : (bufferOps packetReaderParser).init ⟨⟨fun _ => none, none⟩, true, []⟩ := rfl
  obtain ⟨xs, gone, h⟩ := bufferInv_run (.nil _) hinit
  obtain ⟨s1, hs1⟩ := (ready h rfl).buffer
    ⟨1, 256, 4, 2, 0, .templateInfo ⟨256, 1, [⟨⟨8, 4, false, 0⟩, 0⟩]⟩⟩ (by decide)
  obtain ⟨xs1, gone1, h1⟩ := bufferInv_run (.cons hs1 (.nil _)) hinit
  have halive : s1.alive = true := by cases hs1; rfl
  obtain ⟨s2, hs2⟩ := (ready h1 halive).buffer
    ⟨1, 256, 2, 0, 0, .templateInfo ⟨256, 1, [⟨⟨7, 2, false, 0⟩, 0⟩]⟩⟩ (by decide)
  have hrun := LTS.Run.cons hs1 (.cons hs2 (.nil s2))
  obtain ⟨tb, -, htb, hkeyed, hfind, -⟩ := bufferOps_finiteMap hrun hinit
  exact ⟨s2, hrun, tb, htb, hkeyed, (hfind (1, 256)).trans rfl⟩

end Topas
