import Topas.Core.Proc

/-!
# Singly linked lists in a heap

Nodes carry a value and a `next` pointer; a `NodeHeap` maps the addresses of the
live nodes to their contents. Following or freeing a pointer that is not live has
no defined outcome: such a program does not return (`Proc.stuck`), so `Returns`
says that no dangling pointer was used.

`Segment H p xs q`: following `next` from `p`, the nodes `xs` (addresses and
values) come before `q`. `Linked H p xs` is a whole list. `seek` is the search
loop with a trailing pointer, `splice` the removal behind that pointer; both are
specified on `Linked` lists, by where the node stands in `xs`.
-/
namespace Topas

/-- A pointer to a node; `none` is the null pointer. -/
abbrev Ptr := Option Nat

structure Node (α : Type) where
  val : α
  next : Ptr

/-- The live nodes. -/
abbrev NodeHeap (α : Type) := Nat → Option (Node α)

namespace NodeHeap

variable {α ε : Type}

def write (H : NodeHeap α) (a : Nat) (n : Option (Node α)) : NodeHeap α :=
  fun b => if b = a then n else H b

@[simp] theorem write_same (H : NodeHeap α) (a : Nat) (n : Option (Node α)) : H.write a n a = n :=
  if_pos rfl

theorem write_other (H : NodeHeap α) {a b : Nat} (n : Option (Node α)) (h : b ≠ a) :
    H.write a n b = H b :=
  if_neg h

/-- `*p` -/
def deref (H : NodeHeap α) (p : Ptr) : Proc ε (Node α) :=
  match p.bind H with
  | some n => pure n
  | none => .stuck

/-- A store through `p`. -/
def modify (H : NodeHeap α) (p : Ptr) (f : Node α → Node α) : Proc ε (NodeHeap α) :=
  match p with
  | some a =>
    match H a with
    | some n => pure (H.write a (some (f n)))
    | none => .stuck
  | none => .stuck

/-- `p->next = q` -/
def setNext (H : NodeHeap α) (p q : Ptr) : Proc ε (NodeHeap α) := modify H p ({ · with next := q })

/-- `free(p)` -/
def free (H : NodeHeap α) (p : Ptr) : Proc ε (NodeHeap α) :=
  match p with
  | some a =>
    match H a with
    | some _ => pure (H.write a none)
    | none => .stuck
  | none => .stuck

variable {H : NodeHeap α} {a : Nat} {n : Node α}

theorem returns_deref (h : H a = some n) : (deref H (some a) : Proc ε _).Returns [] n := by
  have : (deref H (some a) : Proc ε _) = pure n := by rw [deref, Option.bind_some, h]
  rw [this]; simp

theorem returns_modify (h : H a = some n) (f : Node α → Node α) :
    (modify H (some a) f : Proc ε _).Returns [] (H.write a (some (f n))) := by
  simp [modify, h]

theorem returns_setNext (h : H a = some n) (q : Ptr) :
    (setNext H (some a) q : Proc ε _).Returns [] (H.write a (some { n with next := q })) :=
  returns_modify h _

theorem returns_free (h : H a = some n) :
    (free H (some a) : Proc ε _).Returns [] (H.write a none) := by
  simp [free, h]

/-! ## Lists -/

/-- Following `next` from `p`, the nodes `xs` come before `q`. -/
def Segment (H : NodeHeap α) : Ptr → List (Nat × α) → Ptr → Prop
  | p, [], q => p = q
  | p, (a, x) :: xs, q => p = some a ∧ ∃ next, H a = some ⟨x, next⟩ ∧ Segment H next xs q

/-- The nodes of a whole list. -/
def Linked (H : NodeHeap α) (p : Ptr) (xs : List (Nat × α)) : Prop := H.Segment p xs none

variable {H' : NodeHeap α} {p q : Ptr} {x : α} {xs ys : List (Nat × α)}

theorem segment_append : H.Segment p (xs ++ ys) q ↔ ∃ r, H.Segment p xs r ∧ H.Segment r ys q := by
  induction xs generalizing p with
  | nil =>
    refine ⟨fun h => ⟨p, rfl, h⟩, ?_⟩
    rintro ⟨r, rfl, h⟩
    exact h
  | cons y xs ih =>
    obtain ⟨b, y⟩ := y
    refine ⟨?_, ?_⟩
    · intro ⟨hp, next, hb, h⟩
      obtain ⟨r, h1, h2⟩ := ih.mp h
      exact ⟨r, ⟨hp, next, hb, h1⟩, h2⟩
    · intro ⟨r, ⟨hp, next, hb, h1⟩, h2⟩
      exact ⟨hp, next, hb, ih.mpr ⟨r, h1, h2⟩⟩

/-- Only the nodes of a segment matter for it. -/
theorem Segment.congr (h : H.Segment p xs q) (hH : ∀ y ∈ xs, H' y.1 = H y.1) :
    H'.Segment p xs q := by
  induction xs generalizing p with
  | nil => exact h
  | cons y xs ih =>
    obtain ⟨hp, next, hb, h⟩ := h
    exact ⟨hp, next, (hH y List.mem_cons_self).trans hb,
      ih h fun z hz => hH z (List.mem_cons_of_mem y hz)⟩

theorem Segment.write (h : H.Segment p xs q) {m : Option (Node α)} (ha : ∀ y ∈ xs, y.1 ≠ a) :
    (H.write a m).Segment p xs q :=
  h.congr fun y hy => write_other H m (ha y hy)

theorem Segment.live (h : H.Segment p xs q) {y : Nat × α} (hy : y ∈ xs) :
    ∃ next, H y.1 = some ⟨y.2, next⟩ := by
  induction xs generalizing p with
  | nil => cases hy
  | cons z xs ih =>
    obtain ⟨-, next, hb, h⟩ := h
    rcases List.mem_cons.mp hy with rfl | hy
    · exact ⟨next, hb⟩
    · exact ih h hy

/-- A pointer has one list behind it. -/
theorem Linked.unique (h : H.Linked p xs) (h' : H.Linked p ys) : xs = ys := by
  induction xs generalizing p ys with
  | nil =>
    cases ys with
    | nil => rfl
    | cons y ys =>
      have hp : p = none := h
      cases hp.symm.trans h'.1
  | cons x xs ih =>
    cases ys with
    | nil =>
      have hp : p = none := h'
      cases hp.symm.trans h.1
    | cons y ys =>
      obtain ⟨hp, next, ha, h⟩ := h
      obtain ⟨hp', next', ha', h'⟩ := h'
      have hxy : x.1 = y.1 := Option.some.inj (hp.symm.trans hp')
      rw [hxy, ha', Option.some.injEq, Node.mk.injEq] at ha
      rw [Prod.ext hxy ha.1.symm, ih h (ha.2 ▸ h')]

/-- The first node tells the pointer. -/
theorem Linked.head_eq (h : H.Linked p xs) (h' : H'.Linked q xs) : p = q := by
  cases xs with
  | nil => exact Eq.trans h (Eq.symm h')
  | cons x xs => exact h.1.trans h'.1.symm

/-- A list that ends has no node twice. -/
theorem Linked.nodup (h : H.Linked p xs) : (xs.map Prod.fst).Nodup := by
  induction xs generalizing p with
  | nil => exact List.nodup_nil
  | cons x xs ih =>
    have hx := h
    obtain ⟨hp, next, ha, h⟩ := h
    rw [List.map_cons, List.nodup_cons]
    refine ⟨fun hmem => ?_, ih h⟩
    obtain ⟨y, hy, hyx⟩ := List.mem_map.mp hmem
    obtain ⟨us, vs, rfl⟩ := List.append_of_mem hy
    obtain ⟨r, -, h2⟩ := segment_append.mp h
    have hr : r = p := by rw [h2.1, hp, hyx]
    have hlen := congrArg List.length (Linked.unique (hr ▸ h2) hx)
    simp only [List.length_cons, List.length_append] at hlen
    omega

/-- The node at `a` stands only once in a list. -/
theorem Linked.ne (h : H.Linked p (xs ++ (a, x) :: ys)) : ∀ y ∈ xs ++ ys, y.1 ≠ a := by
  intro y hy he
  have hnd := h.nodup
  rw [List.map_append, List.map_cons] at hnd
  have hmem : a ∈ xs.map Prod.fst ++ ys.map Prod.fst := by
    rw [← List.map_append]
    exact he ▸ List.mem_map_of_mem hy
  have hperm := (List.nodup_cons.mp (List.perm_middle.nodup_iff.mp hnd)).1
  exact hperm hmem

/-! ## Searching -/

/-- The trailing pointer and the pointer of a search. -/
structure Cursor where
  predecessor : Ptr
  p : Ptr
  found : Bool

/-- One round of the loop of `seek`. -/
def seekStep (H : NodeHeap α) (c : α → Bool) (s : Cursor) : Proc ε Cursor := do
  let n ← deref H s.p
  if c n.val then pure { s with found := true } else pure ⟨s.p, n.next, false⟩

/-- `while (p != 0) { if (c(*p)) break; predecessor = p; p = p->next; }` -/
def seek (H : NodeHeap α) (c : α → Bool) (s : Cursor) : Proc ε Cursor :=
  Proc.loop (fun s => s.p.isSome && !s.found) (seekStep H c) s

/-- The last node of `xs`, or `p` in front of them. -/
def lastOf : Ptr → List (Nat × α) → Ptr
  | p, [] => p
  | _, (a, _) :: xs => lastOf (some a) xs

variable {c : α → Bool} {predecessor : Ptr}

theorem returns_seek_skip {l : List ε} {s : Cursor} (h : H.Segment p xs q)
    (hxs : ∀ y ∈ xs, c y.2 = false)
    (hr : (seek H c ⟨lastOf predecessor xs, q, false⟩).Returns l s) :
    (seek H c ⟨predecessor, p, false⟩).Returns l s := by
  induction xs generalizing p predecessor with
  | nil =>
    have hp : p = q := h
    rwa [hp]
  | cons y xs ih =>
    obtain ⟨rfl, next, ha, h⟩ := h
    have hstep : (seekStep H c ⟨predecessor, some y.1, false⟩ : Proc ε _).Returns []
        ⟨some y.1, next, false⟩ := by
      refine (returns_deref ha).then ?_
      simp [hxs y List.mem_cons_self]
    refine (Proc.returns_loop_step (by rfl)).mpr (hstep.then ?_)
    exact ih h (fun z hz => hxs z (List.mem_cons_of_mem y hz)) hr

theorem returns_seek_none (h : H.Linked p xs) (hxs : ∀ y ∈ xs, c y.2 = false) :
    (seek H c ⟨predecessor, p, false⟩ : Proc ε _).Returns [] ⟨lastOf predecessor xs, none, false⟩ :=
  returns_seek_skip h hxs ((Proc.returns_loop_done (by rfl)).mpr ⟨rfl, rfl⟩)

theorem returns_seek_found (h : H.Linked p (xs ++ (a, x) :: ys)) (hxs : ∀ y ∈ xs, c y.2 = false)
    (hx : c x = true) :
    (seek H c ⟨predecessor, p, false⟩ : Proc ε _).Returns []
      ⟨lastOf predecessor xs, some a, true⟩ := by
  obtain ⟨r, h1, rfl, next, ha, -⟩ := segment_append.mp h
  refine returns_seek_skip h1 hxs ((Proc.returns_loop_step (by rfl)).mpr ?_)
  have hstep : (seekStep H c ⟨lastOf predecessor xs, some a, false⟩ : Proc ε _).Returns []
      ⟨lastOf predecessor xs, some a, true⟩ := by
    refine (returns_deref ha).then ?_
    simp [hx]
  exact hstep.then ((Proc.returns_loop_done (by rfl)).mpr ⟨rfl, rfl⟩)

/-! ## Removing a node -/

/-- `if (predecessor != 0) predecessor->next = next; else head = next;` -/
def splice (H : NodeHeap α) (head predecessor next : Ptr) : Proc ε (NodeHeap α × Ptr) :=
  match predecessor with
  | some a => do
    let H ← setNext H (some a) next
    pure (H, head)
  | none => pure (H, next)

theorem lastOf_concat {b : Nat} {y : α} {zs : List (Nat × α)} :
    lastOf p (zs ++ [(b, y)]) = some b := by
  induction zs generalizing p with
  | nil => rfl
  | cons z zs ih => exact ih

/-- The last node of a segment is set to point elsewhere. -/
theorem Segment.redirect {b : Nat} {y : α} {zs : List (Nat × α)} {r : Ptr}
    (h : H.Segment p (zs ++ [(b, y)]) q) (hne : ∀ z ∈ zs, z.1 ≠ b) :
    (H.write b (some ⟨y, r⟩)).Segment p (zs ++ [(b, y)]) r := by
  obtain ⟨s, h1, h2, -⟩ := segment_append.mp h
  exact segment_append.mpr ⟨s, h1.write hne, h2, r, write_same _ _ _, rfl⟩

/-- The search result is all that is needed to take a node out of the list. Only
the node in front of it changes. -/
theorem returns_splice (h : H.Linked p (xs ++ (a, x) :: ys)) :
    ∃ next H' p', H a = some ⟨x, next⟩ ∧
      (splice H p (lastOf none xs) next : Proc ε _).Returns [] (H', p') ∧
      H'.Linked p' (xs ++ ys) ∧ ∀ d, (∀ y ∈ xs, y.1 ≠ d) → H' d = H d := by
  have hnd := h.nodup
  obtain ⟨r, h1, rfl, next, ha, h2⟩ := segment_append.mp h
  rcases List.eq_nil_or_concat xs with rfl | ⟨zs, ⟨b, y⟩, rfl⟩
  · exact ⟨next, H, next, ha, by simp [splice, lastOf], h2, fun _ _ => rfl⟩
  · rw [List.concat_eq_append] at h1 hnd ⊢
    obtain ⟨after, hb⟩ := h1.live (y := (b, y)) (by simp)
    rw [List.append_assoc, List.map_append, List.nodup_append] at hnd
    have hzs : ∀ z ∈ zs, z.1 ≠ b := fun z hz =>
      hnd.2.2 z.1 (List.mem_map_of_mem hz) b (by simp)
    have hys : ∀ z ∈ ys, z.1 ≠ b := fun z hz he => by
      have := (List.nodup_cons.mp hnd.2.1).1
      exact this (List.mem_cons_of_mem _ (List.mem_map.mpr ⟨z, hz, he⟩))
    refine ⟨next, H.write b (some ⟨y, next⟩), p, ha, ?_, ?_, fun d hd => ?_⟩
    · rw [lastOf_concat, splice]
      exact (returns_setNext hb next).then (by simp)
    · exact segment_append.mpr ⟨next, h1.redirect hzs, h2.write hys⟩
    · exact write_other _ _ (hd (b, y) (by simp)).symm

/-! ## Adding and changing a node -/

/-- A fresh node in front of the list. -/
theorem Linked.push (h : H.Linked p xs) (ha : H a = none) (x : α) :
    (H.write a (some ⟨x, p⟩)).Linked (some a) ((a, x) :: xs) := by
  refine ⟨rfl, p, write_same _ _ _, h.write fun y hy he => ?_⟩
  obtain ⟨next, hl⟩ := h.live hy
  rw [he, ha] at hl
  cases hl

/-- A node changes its value. -/
theorem Linked.update {next : Ptr} (h : H.Linked p (xs ++ (a, x) :: ys)) (ha : H a = some ⟨x, next⟩)
    (x' : α) : (H.write a (some ⟨x', next⟩)).Linked p (xs ++ (a, x') :: ys) := by
  have hne := h.ne
  obtain ⟨r, h1, rfl, next', ha', h2⟩ := segment_append.mp h
  rw [ha, Option.some.injEq, Node.mk.injEq] at ha'
  rw [← ha'.2] at h2
  exact segment_append.mpr
    ⟨some a, h1.write fun y hy => hne y (List.mem_append_left _ hy), rfl, next,
    write_same _ _ _, h2.write fun y hy => hne y (List.mem_append_right _ hy)⟩

end NodeHeap

end Topas
