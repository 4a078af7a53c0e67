import Mathlib.Data.List.AList

/-!
# Tables with one value a key

Two operations on `AList`s whose values all have one type, each with what it leaves at a key:
`renew` goes through a second table and renews the value under each of its keys; `mapValues`
applies a function to every value. Neither lets the value at one key depend on another's.
-/
namespace Topas.Tables

variable {κ α β : Type} [DecidableEq κ]

/-- For every entry of `d`, `f` makes the new value from the one that `t` has, if any. -/
def renew (f : κ → Option α → β → α) (t : AList fun _ : κ => α) (d : AList fun _ : κ => β) :
    AList fun _ : κ => α :=
  d.foldl (fun t k v => t.insert k (f k (t.lookup k) v)) t

def mapValues (f : α → β) (t : AList fun _ : κ => α) : AList fun _ : κ => β where
  entries := t.entries.map (.map id fun _ => f)
  nodupKeys := by
    have hkeys :
        (t.entries.map (.map id fun _ => f) : List (Sigma fun _ : κ => β)).keys =
            t.entries.keys := by
      simp [List.keys, Sigma.map]
    rw [List.NodupKeys, hkeys]
    exact t.nodupKeys

@[simp] theorem lookup_mapValues (f : α → β) (t : AList fun _ : κ => α) (k : κ) :
    (mapValues f t).lookup k = (t.lookup k).map f :=
  List.dlookup_map₂ k

theorem lookup_insert (t : AList fun _ : κ => α) (k k' : κ) (v : α) :
    (t.insert k' v).lookup k = if k = k' then some v else t.lookup k := by
  split
  · rename_i h
    rw [h]
    exact AList.lookup_insert t
  · rename_i h
    exact AList.lookup_insert_ne h

/-- A key has one entry in `d`, so its value is renewed once, from what `t` has there. -/
theorem lookup_foldl (f : κ → Option α → β → α) {l : List (Sigma fun _ : κ => β)} (hl : l.NodupKeys)
    (t : AList fun _ : κ => α) (k : κ) :
    (l.foldl (fun t p => t.insert p.1 (f p.1 (t.lookup p.1) p.2)) t).lookup k =
      ((l.dlookup k).map (f k (t.lookup k))).or (t.lookup k) := by
  induction l generalizing t with
  | nil => rfl
  | cons p l ih =>
    obtain ⟨hp, hl⟩ := List.nodupKeys_cons.mp hl
    rw [List.foldl_cons, ih hl, lookup_insert]
    by_cases h : k = p.1
    · -- no later entry has the key
      rw [h, List.dlookup_eq_none.mpr hp, List.dlookup_cons_eq]
      simp
    · rw [List.dlookup_cons_ne _ _ h, if_neg h]

theorem lookup_renew (f : κ → Option α → β → α) (t : AList fun _ : κ => α)
    (d : AList fun _ : κ => β) (k : κ) :
    (renew f t d).lookup k = ((d.lookup k).map (f k (t.lookup k))).or (t.lookup k) :=
  lookup_foldl f d.nodupKeys t k

end Topas.Tables
