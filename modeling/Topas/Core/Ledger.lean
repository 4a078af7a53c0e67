import Mathlib.Algebra.BigOperators.Group.Finset.Piecewise
import Mathlib.Data.List.Dedup
import Topas.Core.Tables

/-!
# Ledgers with a bounded list of accounts

A posting names an account and an amount. It is booked if the account is listed; an account
that is not listed is opened as long as the list has room, and else the posting is lost. The
list outlives the book: a new book begins empty, with the list as it is.

* `Balanced.run`: an account that is listed in the end has in the book the total of its postings,
  and no entry if it had none. Nothing of it was lost before it was opened, as the list only
  grows and an account is refused only when the list is full.
* `runs_lookup`: with room for all the accounts that are posted to, none is refused.
* `total_map`: a book can be posted to another one in place of what was posted to it, also when
  the other one takes accounts together.
-/
namespace Topas

structure Ledger (κ α : Type) where
  listed : List κ
  book : AList fun _ : κ => α

namespace Ledger

variable {κ α : Type} [DecidableEq κ]

/-- A new book for the accounts that are listed. -/
def new (listed : List κ) : Ledger κ α := ⟨listed, ∅⟩

/-! ## Postings -/

/-- The amounts posted to an account, in order. -/
def amounts (ps : List (κ × α)) (k : κ) : List α := (ps.filter fun p => p.1 = k).map Prod.snd

@[simp] theorem amounts_nil (k : κ) : amounts ([] : List (κ × α)) k = [] := rfl

theorem amounts_concat (ps : List (κ × α)) (p : κ × α) (k : κ) :
    amounts (ps ++ [p]) k = amounts ps k ++ (if p.1 = k then [p.2] else []) := by
  by_cases h : p.1 = k
  · simp [amounts, List.filter_append, h]
  · simp [amounts, List.filter_append, h]

theorem amounts_append (ps qs : List (κ × α)) (k : κ) :
    amounts (ps ++ qs) k = amounts ps k ++ amounts qs k := by
  simp [amounts, List.filter_append]

theorem amounts_eq_nil {ps : List (κ × α)} {k : κ} : amounts ps k = [] ↔ k ∉ ps.map Prod.fst := by
  simp only [amounts, List.map_eq_nil_iff, List.filter_eq_nil_iff, decide_eq_true_eq, List.mem_map,
    not_exists, not_and]

/-- The entries of a book, as postings. -/
def postings (m : AList fun _ : κ => α) : List (κ × α) := m.entries.map fun p => (p.1, p.2)

theorem amounts_postings (m : AList fun _ : κ => α) (k : κ) :
    amounts (postings m) k = (m.lookup k).toList := by
  have hentries : ∀ l : List (Sigma fun _ : κ => α), l.NodupKeys →
      amounts (l.map fun p => (p.1, p.2)) k = (l.dlookup k).toList := by
    intro l hl
    induction l with
    | nil => rfl
    | cons p l ih =>
      obtain ⟨hp, hl⟩ := List.nodupKeys_cons.mp hl
      have ih := ih hl
      by_cases hk : p.1 = k
      · -- no later entry has the key
        subst hk
        rw [List.dlookup_eq_none.mpr hp] at ih
        rw [List.dlookup_cons_eq]
        simpa [amounts] using ih
      · rw [List.dlookup_cons_ne _ _ (Ne.symm hk), ← ih]
        simp [amounts, hk]
  exact hentries m.entries m.nodupKeys

variable [AddCommMonoid α]

def post (accept : κ → Bool) (cap : Nat) (l : Ledger κ α) (p : κ × α) : Ledger κ α :=
  if accept p.1 then
    if p.1 ∈ l.listed then { l with book := l.book.insert p.1 ((l.book.lookup p.1).getD 0 + p.2) }
    else if l.listed.length < cap then ⟨l.listed ++ [p.1], l.book.insert p.1 p.2⟩
    else l
  else l

def run (accept : κ → Bool) (cap : Nat) (l : Ledger κ α) (ps : List (κ × α)) : Ledger κ α :=
  ps.foldl (post accept cap) l

/-- One book after the other, each with its postings and with the list that the one before left. -/
def runs (accept : κ → Bool) (cap : Nat) : List κ → List (List (κ × α)) → List (Ledger κ α)
  | _, [] => []
  | listed, ps :: pss =>
    let l := run accept cap (new listed) ps
    l :: runs accept cap l.listed pss

/-- What the list may be at any time. -/
structure Admissible (accept : κ → Bool) (cap : Nat) (listed : List κ) : Prop where
  nodup : listed.Nodup
  room : listed.length ≤ cap
  accepted : ∀ k ∈ listed, accept k = true

/-- What the book has to say about an account. -/
def total (ps : List (κ × α)) (k : κ) : Option α :=
  if amounts ps k = [] then none else some (amounts ps k).sum

/-- The book after the postings `ps`: right for the listed accounts, and a posting to another one
that passes was lost to a full list. -/
structure Balanced (accept : κ → Bool) (cap : Nat) (l : Ledger κ α) (ps : List (κ × α)) : Prop
    extends Admissible accept cap l.listed where
  keys : ∀ k ∈ l.book.keys, k ∈ l.listed
  lookup : ∀ k ∈ l.listed, l.book.lookup k = total ps k
  full : ∀ k ∉ l.listed, accept k = true → amounts ps k ≠ [] → l.listed.length = cap

variable {accept : κ → Bool} {cap : Nat} {l : Ledger κ α} {ps : List (κ × α)} {p : κ × α} {k : κ}

theorem total_concat_self (ps : List (κ × α)) (p : κ × α) :
    total (ps ++ [p]) p.1 = some ((total ps p.1).getD 0 + p.2) := by
  rw [total, amounts_concat, if_pos rfl, if_neg (by simp), List.sum_append,
    List.sum_singleton, total]
  by_cases h : amounts ps p.1 = []
  · simp [h]
  · simp [h]

theorem total_concat_of_ne (ps : List (κ × α)) (h : p.1 ≠ k) :
    total (ps ++ [p]) k = total ps k := by
  simp [total, amounts_concat, h]

theorem total_getD (ps : List (κ × α)) (k : κ) : (total ps k).getD 0 = (amounts ps k).sum := by
  unfold total
  split
  · rename_i h
    simp [h]
  · rfl

theorem total_eq_none {ps : List (κ × α)} {k : κ} : total ps k = none ↔ amounts ps k = [] := by
  unfold total
  split <;> simp_all

theorem total_perm {ps qs : List (κ × α)} (h : ps.Perm qs) (k : κ) : total ps k = total qs k := by
  have hamounts : (amounts ps k).Perm (amounts qs k) := (h.filter _).map _
  have hnil : amounts ps k = [] ↔ amounts qs k = [] :=
    ⟨fun h' => (h' ▸ hamounts).nil_eq.symm, fun h' => (h' ▸ hamounts).eq_nil⟩
  simp only [total, hnil, hamounts.sum_eq]

theorem Admissible.new {listed : List κ} (h : Admissible accept cap listed) :
    Balanced accept cap (Ledger.new (α := α) listed) [] where
  toAdmissible := h
  keys := by simp [Ledger.new]
  lookup := by simp [Ledger.new, total]
  full := by simp

/-- A posting to a listed account. -/
theorem Balanced.book (h : Balanced accept cap l ps) (hk : p.1 ∈ l.listed) :
    Balanced accept cap { l with book := l.book.insert p.1 ((l.book.lookup p.1).getD 0 + p.2) }
      (ps ++ [p]) where
  toAdmissible := h.toAdmissible
  keys := by
    intro k hmem
    rcases AList.mem_insert l.book |>.mp hmem with rfl | hmem
    · exact hk
    · exact h.keys k hmem
  lookup := by
    intro k hmem
    rw [Tables.lookup_insert]
    by_cases heq : k = p.1
    · rw [if_pos heq, heq, total_concat_self, h.lookup p.1 hk]
    · rw [if_neg heq, total_concat_of_ne ps (Ne.symm heq), h.lookup k hmem]
  full := by
    intro k hmem hacc hne
    refine h.full k hmem hacc ?_
    have hkp : p.1 ≠ k := by
      rintro rfl
      exact hmem hk
    simpa [amounts_concat, hkp] using hne

/-- The first posting to an account for which there is room. -/
theorem Balanced.open (h : Balanced accept cap l ps) (hacc : accept p.1 = true)
    (hk : p.1 ∉ l.listed) (hroom : l.listed.length < cap) :
    Balanced accept cap ⟨l.listed ++ [p.1], l.book.insert p.1 p.2⟩ (ps ++ [p]) := by
  -- nothing was posted to it before, or the list would be full
  have hnew : amounts ps p.1 = [] := by
    by_contra hne
    have := h.full p.1 hk hacc hne
    omega
  refine ⟨⟨?_, ?_, ?_⟩, ?_, ?_, ?_⟩
  · rw [List.nodup_append]
    refine ⟨h.nodup, List.nodup_singleton _, ?_⟩
    rintro a ha b hb rfl
    rw [List.mem_singleton] at hb
    exact hk (hb ▸ ha)
  · simp
    omega
  · intro k hmem
    rcases List.mem_append.mp hmem with hmem | hmem
    · exact h.accepted k hmem
    · rwa [List.mem_singleton.mp hmem]
  · intro k hmem
    rcases AList.mem_insert l.book |>.mp hmem with rfl | hmem
    · simp
    · exact List.mem_append_left _ (h.keys k hmem)
  · intro k hmem
    rw [Tables.lookup_insert]
    by_cases heq : k = p.1
    · rw [if_pos heq, heq, total_concat_self, total, if_pos hnew]
      simp
    · rw [if_neg heq, total_concat_of_ne ps (Ne.symm heq)]
      rcases List.mem_append.mp hmem with hmem | hmem
      · exact h.lookup k hmem
      · exact absurd (List.mem_singleton.mp hmem) heq
  · intro k hmem hk' hne
    have hkp : p.1 ≠ k := by
      rintro rfl
      simp at hmem
    have := h.full k (fun hm => hmem (List.mem_append_left _ hm)) hk'
      (by simpa [amounts_concat, hkp] using hne)
    omega

/-- A posting that is refused, or one that is lost. -/
theorem Balanced.skip (h : Balanced accept cap l ps) (hk : p.1 ∉ l.listed)
    (hfull : accept p.1 = true → l.listed.length = cap) : Balanced accept cap l (ps ++ [p]) where
  toAdmissible := h.toAdmissible
  keys := h.keys
  lookup := by
    intro k hmem
    have hkp : p.1 ≠ k := by
      rintro rfl
      exact hk hmem
    rw [total_concat_of_ne ps hkp, h.lookup k hmem]
  full := by
    intro k hmem hacc hne
    by_cases hkp : p.1 = k
    · exact hfull (hkp ▸ hacc)
    · exact h.full k hmem hacc (by simpa [amounts_concat, hkp] using hne)

theorem Balanced.post (h : Balanced accept cap l ps) (p : κ × α) :
    Balanced accept cap (l.post accept cap p) (ps ++ [p]) := by
  unfold Ledger.post
  by_cases hacc : accept p.1 = true
  · rw [if_pos hacc]
    by_cases hk : p.1 ∈ l.listed
    · rw [if_pos hk]
      exact h.book hk
    · rw [if_neg hk]
      by_cases hroom : l.listed.length < cap
      · rw [if_pos hroom]
        exact h.open hacc hk hroom
      · rw [if_neg hroom]
        exact h.skip hk fun _ => Nat.le_antisymm h.room (Nat.le_of_not_lt hroom)
  · rw [if_neg hacc]
    exact h.skip (fun hk => hacc (h.accepted p.1 hk)) fun h => absurd h hacc

theorem Balanced.run (h : Balanced accept cap l ps) (qs : List (κ × α)) :
    Balanced accept cap (l.run accept cap qs) (ps ++ qs) := by
  induction qs generalizing l ps with
  | nil => simpa [Ledger.run] using h
  | cons q qs ih =>
    have := ih (h.post q)
    rwa [List.append_assoc, List.singleton_append] at this

theorem Admissible.run {listed : List κ} (h : Admissible accept cap listed) (ps : List (κ × α)) :
    Balanced accept cap ((Ledger.new listed).run accept cap ps) ps := by
  have := h.new.run ps
  rwa [List.nil_append] at this

/-- The list only grows, and only by accounts that are posted to. -/
theorem listed_run (l : Ledger κ α) (ps : List (κ × α)) :
    (∀ k ∈ l.listed, k ∈ (l.run accept cap ps).listed) ∧
      ∀ k ∈ (l.run accept cap ps).listed, k ∈ l.listed ∨ k ∈ ps.map Prod.fst := by
  induction ps generalizing l with
  | nil => exact ⟨fun k hk => hk, fun k hk => .inl hk⟩
  | cons p ps ih =>
    obtain ⟨hkeep, hfrom⟩ := ih (l.post accept cap p)
    have hpost : (l.post accept cap p).listed = l.listed ∨
        (l.post accept cap p).listed = l.listed ++ [p.1] := by
      unfold Ledger.post
      repeat' split
      all_goals simp
    refine ⟨fun k hk => hkeep k ?_, fun k hk => ?_⟩
    · rcases hpost with hpost | hpost <;> simp [hpost, hk]
    · rcases hfrom k hk with hk | hk
      · rcases hpost with hpost | hpost
        · exact .inl (hpost ▸ hk)
        · rw [hpost, List.mem_append, List.mem_singleton] at hk
          rcases hk with hk | rfl
          · exact .inl hk
          · exact .inr (by simp)
      · exact .inr (List.mem_cons_of_mem _ hk)

/-- With room for every account that is listed or posted to, no posting that passes is refused. -/
theorem mem_listed (h : Balanced accept cap l ps) {known : List κ}
    (hknown : ∀ k ∈ l.listed, k ∈ known)
    (hposts : ∀ k ∈ ps.map Prod.fst, k ∈ known) (hroom : known.dedup.length ≤ cap)
    (hacc : accept k = true) (hk : k ∈ ps.map Prod.fst) : k ∈ l.listed := by
  by_contra hnot
  have hfull := h.full k hnot hacc fun hnil => amounts_eq_nil.mp hnil hk
  -- the listed accounts and `k` are among the known ones
  have hsub : k :: l.listed ⊆ known.dedup := by
    intro k' hk'
    rcases List.mem_cons.mp hk' with rfl | hk'
    · exact List.mem_dedup.mpr (hposts _ hk)
    · exact List.mem_dedup.mpr (hknown k' hk')
  have hlen := (List.subperm_of_subset (List.nodup_cons.mpr ⟨hnot, h.nodup⟩) hsub).length_le
  rw [List.length_cons] at hlen
  omega

theorem lookup_eq_total (h : Balanced accept cap l ps) {known : List κ}
    (hknown : ∀ k ∈ l.listed, k ∈ known)
    (hposts : ∀ k ∈ ps.map Prod.fst, k ∈ known) (hroom : known.dedup.length ≤ cap) (k : κ) :
    l.book.lookup k = if accept k then total ps k else none := by
  by_cases hk : k ∈ l.listed
  · rw [if_pos (h.accepted k hk), h.lookup k hk]
  · rw [AList.lookup_eq_none.mpr fun hmem => hk (h.keys k hmem)]
    split
    · rename_i hacc
      have hnot : k ∉ ps.map Prod.fst := fun hmem => hk (mem_listed h hknown hposts hroom hacc hmem)
      rw [total, if_pos (amounts_eq_nil.mpr hnot)]
    · rfl

/-- With room for all accounts of all books, each book has the totals of its own postings. -/
theorem runs_lookup {listed known : List κ} (h : Admissible accept cap listed)
    (hknown : ∀ k ∈ listed, k ∈ known) (hroom : known.dedup.length ≤ cap)
    (pss : List (List (κ × α))) (hposts : ∀ ps ∈ pss, ∀ k ∈ ps.map Prod.fst, k ∈ known) :
    List.Forall₂ (fun l ps => ∀ k, l.book.lookup k = if accept k then total ps k else none)
      (runs accept cap listed pss) pss := by
  induction pss generalizing listed with
  | nil => exact .nil
  | cons ps pss ih =>
    have hps := hposts ps List.mem_cons_self
    have hlisted : ∀ k ∈ ((new listed).run accept cap ps).listed, k ∈ known := by
      intro k hk
      rcases (listed_run _ ps).2 k hk with hk | hk
      · exact hknown k hk
      · exact hps k hk
    exact .cons (lookup_eq_total (h.run ps) hlisted hps hroom)
      (ih (h.run ps).toAdmissible hlisted fun qs hqs => hposts qs (List.mem_cons_of_mem _ hqs))

/-! ## Books of books -/

/-- A book posted to a new one. -/
theorem total_postings (m : AList fun _ : κ => α) (k : κ) : total (postings m) k = m.lookup k := by
  rw [total, amounts_postings]
  cases m.lookup k with
  | none => rfl
  | some x => simp

section

variable {κ' : Type} [DecidableEq κ'] (f : κ → κ')

/-- The postings to accounts that `f` takes to one. -/
theorem sum_amounts_map (ps : List (κ × α)) (s : Finset κ) (h : ∀ p ∈ ps, p.1 ∈ s) (k' : κ') :
    (amounts (ps.map fun p => (f p.1, p.2)) k').sum = ∑ k ∈ s with f k = k',
    (amounts ps k).sum := by
  induction ps with
  | nil => simp
  | cons p ps ih =>
    have hcons :
        ∀ k, (amounts (p :: ps) k).sum = (if p.1 = k then p.2 else 0) + (amounts ps k).sum := by
      intro k
      by_cases hk : p.1 = k <;> simp [amounts, hk]
    have hmap : (amounts ((p :: ps).map fun p => (f p.1, p.2)) k').sum =
        (if f p.1 = k' then p.2 else 0) + (amounts (ps.map fun p => (f p.1, p.2)) k').sum := by
      by_cases hk : f p.1 = k' <;> simp [amounts, hk]
    simp only [hmap, hcons, Finset.sum_add_distrib, ih fun q hq => h q (List.mem_cons_of_mem _ hq)]
    congr 1
    simp [Finset.sum_ite_eq, h p List.mem_cons_self]

/-- What a book has in all is what was posted to it, also when accounts are taken together. -/
theorem total_map {m : AList fun _ : κ => α} {ps : List (κ × α)} (h : ∀ k, m.lookup k = total ps k)
    (k' : κ') :
    total ((postings m).map fun p => (f p.1, p.2)) k' = total
    (ps.map fun p => (f p.1, p.2)) k' := by
  have hamounts : ∀ k, (amounts (postings m) k).sum = (amounts ps k).sum := by
    intro k
    rw [← total_getD, ← total_getD, total_postings, h]
  have hkeys : ∀ k, k ∈ (postings m).map Prod.fst ↔ k ∈ ps.map Prod.fst := by
    intro k
    have := total_postings m k
    rw [h] at this
    rw [← not_iff_not, ← amounts_eq_nil, ← amounts_eq_nil, ← total_eq_none, ← total_eq_none, this]
  have hnil : amounts ((postings m).map fun p => (f p.1, p.2)) k' = [] ↔
      amounts (ps.map fun p => (f p.1, p.2)) k' = [] := by
    have hfst : ∀ qs : List (κ × α),
        (qs.map fun p => (f p.1, p.2)).map Prod.fst = (qs.map Prod.fst).map f := by
      intro qs
      simp [Function.comp_def]
    rw [amounts_eq_nil, amounts_eq_nil, hfst, hfst, List.mem_map, List.mem_map]
    simp only [hkeys]
  have hsum : (amounts ((postings m).map fun p => (f p.1, p.2)) k').sum =
      (amounts (ps.map fun p => (f p.1, p.2)) k').sum := by
    have hmem : ∀ p ∈ postings m, p.1 ∈ (ps.map Prod.fst).toFinset := fun p hp =>
      List.mem_toFinset.mpr ((hkeys p.1).mp (List.mem_map_of_mem hp))
    rw [sum_amounts_map f _ _ hmem, sum_amounts_map f ps (ps.map Prod.fst).toFinset fun p hp =>
      List.mem_toFinset.mpr (List.mem_map_of_mem hp)]
    exact Finset.sum_congr rfl fun k _ => hamounts k
  simp only [total, hnil, hsum]

end

end Ledger

end Topas
