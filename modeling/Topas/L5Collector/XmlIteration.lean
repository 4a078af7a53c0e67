import Topas.Core.Proc
import Topas.L5Collector.XmlConfObj

/-!
# Going through the elements of a level

The readers of configurations go through the elements of one name with a `do … while` loop over the
selected node: enter it, read, leave it, select the next. All of this is done on the one object.

* `Balanced`: what the body of such a loop may consist of, other loops of the kind included.
* `Balanced.keepsLevel`: such a body ends, and on the level on which it began if it throws nothing.
* `iteration_visits`: the loop runs its body in every element of the name that has elements in it,
  once and in the order of the document, and ends; the lookups answer as before.
* `readDetectionModules_keepsLevel`: the collector's list of detection modules is read so.
-/
namespace Topas

open Xml Proc

namespace XMLConfObj

/-! ## Programs on an object -/

/-- A program that uses an object, with what else it does as events. An exception ends it, and
leaves the object where it is. -/
def Conf (ε α : Type) : Type := XMLConfObj → Proc ε (Except String α × XMLConfObj)

namespace Conf

variable {ε α β σ : Type}

/-- What follows a part of a program. -/
def andThen (f : α → Conf ε β) : Except String α × XMLConfObj →
    Proc ε (Except String β × XMLConfObj)
  | (.ok a, c) => f a c
  | (.error e, c) => pure (.error e, c)

instance : Monad (Conf ε) where
  pure a c := pure (.ok a, c)
  bind p f c := p c >>= andThen f

def call (m : Member α) : Conf ε α := fun c => pure (m c)

def throw (e : String) : Conf ε α := fun c => pure (.error e, c)

def emit (e : ε) : Conf ε Unit := fun c => do
  Proc.emit e
  pure (.ok (), c)

/-- A loop between two passes. -/
structure Turn (σ : Type) where
  go : Bool
  result : Except String σ
  object : XMLConfObj

/-- The body, and the condition for another pass. -/
def pass (body : σ → Conf ε σ) (cond : Conf ε Bool) (s : σ) : Conf ε (σ × Bool) := do
  let s ← body s
  let go ← cond
  pure (s, go)

def turn (body : σ → Conf ε σ) (cond : Conf ε Bool) (t : Turn σ) : Proc ε (Turn σ) :=
  match t.result with
  | .error _ => pure { t with go := false }
  | .ok s => do
    match ← pass body cond s t.object with
    | (.ok (s, go), c) => pure ⟨go, .ok s, c⟩
    | (.error e, c) => pure ⟨false, .error e, c⟩

/-- `do s = body(s); while (cond());` -/
def doWhile (body : σ → Conf ε σ) (cond : Conf ε Bool) (s : σ) : Conf ε σ := fun c => do
  let t ← loop Turn.go (turn body cond) ⟨true, .ok s, c⟩
  pure (t.result, t.object)

section Rules

variable {p : Conf ε α} {f : α → Conf ε β} {body : σ → Conf ε σ} {cond : Conf ε Bool} {s s' : σ}
  {c c' c'' : XMLConfObj} {l l' : List ε} {e : String}

@[simp] theorem returns_call {m : Member α} {r : Except String α × XMLConfObj} :
    (call m c : Proc ε _).Returns l r ↔ l = [] ∧ r = m c := returns_pure

theorem returns_pure_ok (a : α) (c : XMLConfObj) : ((pure a : Conf ε α) c).Returns [] (.ok a, c) :=
  returns_pure.mpr ⟨rfl, rfl⟩

theorem returns_emit_ok (e : ε) (c : XMLConfObj) : (emit e c).Returns [e] (.ok (), c) :=
  Returns.last (a := ()) (returns_emit.mpr rfl) (returns_pure.mpr ⟨rfl, rfl⟩)

theorem returns_bind_ok {a : α} {r : Except String β × XMLConfObj} (h : (p c).Returns l (.ok a, c'))
    (hf : (f a c').Returns l' r) : ((p >>= f) c).Returns (l ++ l') r :=
  Returns.bind h hf

theorem returns_bind_error (h : (p c).Returns l (.error e, c')) :
    ((p >>= f) c).Returns l (.error e, c') :=
  Returns.last h (returns_pure.mpr ⟨rfl, rfl⟩)

/-- A call that throws nothing, and what follows. -/
theorem returns_call_bind {m : Member α} {a : α} {r : Except String β × XMLConfObj}
    (h : m c = (.ok a, c')) (hf : (f a c').Returns l r) : ((call m >>= f) c).Returns l r :=
  returns_bind_ok (returns_call.mpr ⟨rfl, h.symm⟩) hf

/-- A whole pass, when the body throws nothing and the condition is a call. -/
theorem returns_pass {m : Member Bool} {go : Bool} (hbody : (body s c).Returns l (.ok s', c'))
    (hcond : m c' = (.ok go, c'')) : (pass body (call m) s c).Returns l (.ok (s', go), c'') := by
  have hrest := returns_call_bind (f := fun go => (pure (s', go) : Conf ε (σ × Bool))) hcond
    (returns_pure_ok (s', go) c'')
  have hpass :=
    returns_bind_ok (f := fun s => call m >>= fun go => (pure (s, go) : Conf ε (σ × Bool)))
    hbody hrest
  rwa [List.append_nil] at hpass

/-- The last turn. -/
theorem returns_doWhile_last {r : Except String σ}
    (h : (turn body cond ⟨true, .ok s, c⟩).Returns l ⟨false, r, c'⟩) :
    (doWhile body cond s c).Returns l (r, c') := by
  have hloop := (returns_loop_step (c := Turn.go) rfl).mpr
    (h.last ((returns_loop_done rfl).mpr ⟨rfl, rfl⟩))
  exact hloop.last (returns_pure.mpr ⟨rfl, rfl⟩)

theorem returns_doWhile_done (h : (pass body cond s c).Returns l (.ok (s', false), c')) :
    (doWhile body cond s c).Returns l (.ok s', c') :=
  returns_doWhile_last (Returns.last h (returns_pure.mpr ⟨rfl, rfl⟩))

theorem returns_doWhile_error (h : (body s c).Returns l (.error e, c')) :
    (doWhile body cond s c).Returns l (.error e, c') := by
  have hpass : (pass body cond s c).Returns l (.error e, c') := returns_bind_error h
  exact returns_doWhile_last (Returns.last hpass (returns_pure.mpr ⟨rfl, rfl⟩))

theorem returns_doWhile_step {r : Except String σ × XMLConfObj}
    (h : (pass body cond s c).Returns l (.ok (s', true), c'))
    (hrest : (doWhile body cond s' c').Returns l' r) :
    (doWhile body cond s c).Returns (l ++ l') r := by
  have hturn : (turn body cond ⟨true, .ok s, c⟩).Returns l ⟨true, .ok s', c'⟩ :=
    Returns.last h (returns_pure.mpr ⟨rfl, rfl⟩)
  obtain ⟨l₁, t, l₂, hloop, hend, rfl⟩ := returns_bind.mp hrest
  have hfirst := (returns_loop_step (c := Turn.go) rfl).mpr (hturn.bind hloop)
  rw [← List.append_assoc]
  exact Returns.bind hfirst hend

end Rules

/-! ## Loops over a level -/

/-- What is done with a selected node: its elements are entered, if there are any. -/
def visit (body : σ → Conf ε σ) (s : σ) : Conf ε σ := do
  if ← call enterNodeIfNotEmpty then
    let s ← body s
    call leaveNode
    pure s
  else pure s

/-- A loop over the nodes of a name.
mirrors collector/collector.cpp:196-199 -/
def selection (nodeName : String) (body : σ → Conf ε σ) (s : σ) : Conf ε σ := do
  if ← call (selectNodeIfExists nodeName) then
    doWhile body (call (selectNextNamedIfExists nodeName)) s
  else pure s

/-- A loop over the elements of a name that have elements in them.
mirrors collector/collector.cpp:188-211 -/
def iteration (nodeName : String) (body : σ → Conf ε σ) (s : σ) : Conf ε σ :=
  selection nodeName (visit body) s

/-- An element is entered by its name, and left.
mirrors collector/collector.cpp:187,213 -/
def within (nodeName : String) (p : Conf ε α) : Conf ε α := do
  call (enterNode nodeName)
  let a ← p
  call leaveNode
  pure a

end Conf

open Conf

section Levels

variable {ε α β σ : Type}

/-- On every level the program ends, and on the same level if it throws nothing. -/
def KeepsLevel (p : Conf ε α) : Prop :=
  ∀ parent c, OnLevel parent c → ∃ l r c', (p c).Returns l (r, c') ∧
    ∀ a, r = .ok a → OnLevel parent c' ∧ c'.documentTree = c.documentTree

/-- The program ends and leaves the object as it is. -/
def Still (p : Conf ε α) : Prop := ∀ c, ∃ l r, (p c).Returns l (r, c)

/-- The results of one node after another, up to the first exception. -/
inductive Folds (run : XmlPtr String → σ → List ε → Except String σ → Prop) :
    List (XmlPtr String) → σ → List ε → Except String σ → Prop where
  | nil (s : σ) : Folds run [] s [] (.ok s)
  | cons {q : XmlPtr String} {qs : List (XmlPtr String)} {s s' : σ} {l l' : List ε}
      {r : Except String σ} :
      run q s l (.ok s') → Folds run qs s' l' r → Folds run (q :: qs) s (l ++ l') r
  | error {q : XmlPtr String} {qs : List (XmlPtr String)} {s : σ} {l : List ε} {e : String} :
      run q s l (.error e) → Folds run (q :: qs) s l (.error e)

/-- The nodes of a name on the level below a node. -/
def selected (parent : XmlPtr String) (nodeName : String) : List (XmlPtr String) :=
  parent.childNodes.filter (XmlPtr.is (named nodeName))

variable {parent : XmlPtr String} {nodeName : String} {body : σ → Conf ε σ} {c : XMLConfObj}
  {run : XmlPtr String → σ → List ε → Except String σ → Prop}

/-- From a selected node on. -/
theorem doWhile_folds (d : XmlDoc)
    (hbody : ∀ q c s, parent.On q → OnLevel parent c → c.savedPosition = q → c.documentTree = d →
      ∃ l r c', (body s c).Returns l (r, c') ∧ run q s l r ∧
        ∀ s', r = .ok s' → OnLevel parent c' ∧ c'.savedPosition = q ∧ c'.documentTree = d)
    {before after : Level String} {x : Xml String}
    (hkids : parent.kids = before.reverse ++ x :: after)
    (hlevel : OnLevel parent c) (hsaved : c.savedPosition = .node parent before x after)
    (hd : c.documentTree = d) (s : σ) :
    ∃ l r c', (doWhile body (call (selectNextNamedIfExists nodeName)) s c).Returns l (r, c') ∧
      Folds run (.node parent before x after ::
        (XmlPtr.places parent (x :: before) after).filter (XmlPtr.is (named nodeName))) s l r ∧
      ∀ s', r = .ok s' → OnLevel parent c' ∧ c'.documentTree = d := by
  -- every pass selects a node further on
  induction hn : after.length using Nat.strongRecOn generalizing before x after c s with
  | _ n ih =>
    obtain ⟨l, r, c1, hrun, hfold, hok⟩ :=
      hbody _ c s ⟨before, x, after, rfl, hkids⟩ hlevel hsaved hd
    cases r with
    | error e =>
      exact ⟨l, .error e, c1, returns_doWhile_error hrun, .error hfold, fun s' h => nomatch h⟩
    | ok s1 =>
      obtain ⟨hlevel1, hsaved1, hd1⟩ := hok s1 rfl
      have hnext : c1.findNode (named nodeName) false =
          XmlPtr.seek (named nodeName) parent (x :: before) after := by
        rw [findNode, hsaved1]
        rfl
      rw [XmlPtr.filter_places]
      cases hseek : XmlPtr.seek (named nodeName) parent (x :: before) after with
      | none =>
        have hstop : c1.selectNextNamedIfExists nodeName = (.ok false, c1) := by
          rw [selectNextNamedIfExists, hnext, hseek]
          rfl
        refine ⟨l, .ok s1, c1, returns_doWhile_done (returns_pass hrun hstop), ?_, ?_⟩
        · have := Folds.cons hfold (.nil s1)
          rwa [List.append_nil] at this
        · exact fun _ _ => ⟨hlevel1, hd1⟩
      | some q =>
        have hgo :
            c1.selectNextNamedIfExists nodeName = (.ok true, { c1 with savedPosition := q }) := by
          rw [selectNextNamedIfExists, hnext, hseek]
          rfl
        obtain ⟨pre, y, post, rfl, -, -, rfl⟩ := XmlPtr.seek_eq_some.mp hseek
        have hkids2 : parent.kids = (pre.reverse ++ x :: before).reverse ++ y :: post :=
          by simp [hkids]
        have hlevel2 : OnLevel parent
            { c1 with savedPosition := .node parent (pre.reverse ++ x :: before) y post } :=
          ⟨hlevel1.placed, hlevel1.current, .inl ⟨_, y, post, rfl, hkids2⟩⟩
        obtain ⟨l2, r2, c2, hrun2, hfold2, hok2⟩ :=
          ih post.length (by simp at hn; omega) hkids2 hlevel2 rfl hd1 s1 rfl
        exact
          ⟨l ++ l2, r2, c2, returns_doWhile_step (returns_pass hrun hgo) hrun2, .cons hfold hfold2,
          hok2⟩

/-- A loop over the selected nodes of the level. -/
theorem selection_folds (hlevel : OnLevel parent c)
    (hbody : ∀ q c' s, parent.On q → OnLevel parent c' → c'.savedPosition = q →
      c'.documentTree = c.documentTree →
      ∃ l r c'', (body s c').Returns l (r, c'') ∧ run q s l r ∧
        ∀ s', r = .ok s' → OnLevel parent c'' ∧ c''.savedPosition = q ∧
        c''.documentTree = c.documentTree)
    (s : σ) :
    ∃ l r c', (selection nodeName body s c).Returns l (r, c') ∧
    Folds run (selected parent nodeName) s l r ∧
      ∀ s', r = .ok s' → OnLevel parent c' ∧ c'.documentTree = c.documentTree := by
  have hfind := hlevel.findNode nodeName
  rw [selected, XmlPtr.childNodes, XmlPtr.filter_places]
  change c.findNode (named nodeName) true = XmlPtr.seek
    (named nodeName) parent [] parent.kids at hfind
  cases hseek : XmlPtr.seek (named nodeName) parent [] parent.kids with
  | none =>
    have hnone : c.selectNodeIfExists nodeName = (.ok false, c) := by
      rw [selectNodeIfExists, hfind, hseek]
      rfl
    exact ⟨[], .ok s, c, returns_call_bind hnone (returns_pure_ok s c), .nil s,
      fun _ _ => ⟨hlevel, rfl⟩⟩
  | some q =>
    have hsome : c.selectNodeIfExists nodeName = (.ok true, { c with savedPosition := q }) := by
      rw [selectNodeIfExists, hfind, hseek]
      rfl
    obtain ⟨pre, x, after, hkids, -, -, rfl⟩ := XmlPtr.seek_eq_some.mp hseek
    have hkids' : parent.kids = (pre.reverse ++ []).reverse ++ x :: after := by simp [hkids]
    have hlevel' :
        OnLevel parent { c with savedPosition := .node parent (pre.reverse ++ []) x after } :=
      ⟨hlevel.placed, hlevel.current, .inl ⟨_, x, after, rfl, hkids'⟩⟩
    obtain ⟨l, r, c', hrun, hfold, hok⟩ :=
      doWhile_folds c.documentTree hbody hkids' hlevel' rfl rfl s
    exact ⟨l, r, c', returns_call_bind hsome hrun, hfold, hok⟩

/-- The object in a node that has elements in it. -/
def entered (d : XmlDoc) (q : XmlPtr String) : XMLConfObj :=
  let first := (q.seekChild isElement).getD q
  ⟨d, first, first⟩

/-- What a visit of a node gives: what the body gives in it, or nothing where there are no elements.
-/
def Visit (body : σ → Conf ε σ) (d : XmlDoc) (q : XmlPtr String) (s : σ) (l : List ε)
    (r : Except String σ) : Prop :=
  if (q.seekChild isElement).isSome then ∃ c', (body s (entered d q)).Returns l (r, c')
  else l = [] ∧ r = .ok s

/-- A visit where there are no elements. -/
theorem returns_visit_empty (hfirst : c.savedPosition.seekChild isElement = none) (s : σ) :
    (visit body s c).Returns [] (.ok s, c) := by
  have hempty : c.enterNodeIfNotEmpty = (.ok false, c) := by
    rw [enterNodeIfNotEmpty, hfirst]
  exact returns_call_bind hempty (returns_pure_ok s c)

section VisitInside

variable {first : XmlPtr String} {l : List ε} {s s' : σ} {c1 c2 : XMLConfObj} {e : String}

theorem enterNodeIfNotEmpty_some (hfirst : c.savedPosition.seekChild isElement = some first) :
    c.enterNodeIfNotEmpty = (.ok true, c.inside first) := by
  rw [enterNodeIfNotEmpty, hfirst]
  rfl

theorem returns_visit (hfirst : c.savedPosition.seekChild isElement = some first)
    (hrun : (body s (c.inside first)).Returns l (.ok s', c1))
    (hleave : c1.leaveNode = (.ok (), c2)) :
    (visit body s c).Returns l (.ok s', c2) := by
  have hrest :=
    returns_call_bind (f := fun _ => (pure s' : Conf ε σ)) hleave (returns_pure_ok s' c2)
  have hin := returns_bind_ok (f := fun s => (do call leaveNode; pure s : Conf ε σ)) hrun hrest
  rw [List.append_nil] at hin
  exact returns_call_bind (enterNodeIfNotEmpty_some hfirst) hin

theorem returns_visit_error (hfirst : c.savedPosition.seekChild isElement = some first)
    (hrun : (body s (c.inside first)).Returns l (.error e, c1)) :
    (visit body s c).Returns l (.error e, c1) :=
  returns_call_bind (enterNodeIfNotEmpty_some hfirst) (returns_bind_error hrun)

end VisitInside

/-- After a visit the node is selected that was. -/
theorem visit_returns (hbody : ∀ s, KeepsLevel (body s)) {q : XmlPtr String} (hq : parent.On q)
    (hlevel : OnLevel parent c) (hsaved : c.savedPosition = q) (s : σ) :
    ∃ l r c', (visit body s c).Returns l (r, c') ∧ Visit body c.documentTree q s l r ∧
      ∀ s', r = .ok s' → OnLevel parent c' ∧ c'.savedPosition = q ∧
      c'.documentTree = c.documentTree := by
  subst hsaved
  cases hfirst : c.savedPosition.seekChild isElement with
  | none =>
    refine ⟨[], .ok s, c, returns_visit_empty hfirst s, ?_, fun _ _ => ⟨hlevel, rfl, rfl⟩⟩
    rw [Visit, hfirst, if_neg (by simp)]
    exact ⟨rfl, rfl⟩
  | some first =>
    have hentered : entered c.documentTree c.savedPosition = c.inside first := by
      rw [entered, hfirst]
      rfl
    obtain ⟨l, r, c1, hrun, hok⟩ :=
      hbody s _ (c.inside first) (onLevel_inside c (hq.placed hlevel.placed) hfirst)
    have hvisit : Visit body c.documentTree c.savedPosition s l r := by
      have hsome : (c.savedPosition.seekChild isElement).isSome = true := by rw [hfirst]; rfl
      refine (iff_of_eq (if_pos hsome)).mpr ⟨c1, ?_⟩
      rw [hentered]
      exact hrun
    cases r with
    | error e =>
      exact ⟨l, .error e, c1, returns_visit_error hfirst hrun, hvisit, fun s' h => nomatch h⟩
    | ok s1 =>
      obtain ⟨hlevel1, hd1⟩ := hok s1 rfl
      obtain ⟨c2, hleave, hsaved2, hd2, hlevel2⟩ := hlevel1.leaveNode hq hlevel.placed
      exact ⟨l, .ok s1, c2, returns_visit hfirst hrun hleave, hvisit,
        fun s' h => ⟨hlevel2, hsaved2, hd2.trans hd1⟩⟩

/-- The nodes that have elements in them. -/
def nonEmpty (qs : List (XmlPtr String)) : List (XmlPtr String) :=
  qs.filter fun q => (q.seekChild isElement).isSome

/-- Nothing comes of the other nodes. -/
theorem Folds.nonEmpty {d : XmlDoc} {qs : List (XmlPtr String)} {s : σ} {l : List ε}
    {r : Except String σ} (h : Folds (Visit body d) qs s l r) :
    Folds (fun q s l r => ∃ c', (body s (entered d q)).Returns l (r, c')) (nonEmpty qs) s l r := by
  induction h with
  | nil s => exact .nil s
  | @cons q qs s s' l l' r hrun _ ih =>
    unfold Visit at hrun
    rw [XMLConfObj.nonEmpty, List.filter_cons]
    split at hrun
    · rename_i hsome
      rw [if_pos hsome]
      exact .cons hrun ih
    · rename_i hnone
      obtain ⟨rfl, hs⟩ := hrun
      cases hs
      rw [if_neg hnone]
      exact ih
  | @error q qs s l e hrun =>
    unfold Visit at hrun
    rw [XMLConfObj.nonEmpty, List.filter_cons]
    split at hrun
    · rename_i hsome
      rw [if_pos hsome]
      exact .error hrun
    · cases hrun.2

/-- A loop over the elements of the level. -/
theorem iteration_folds (hbody : ∀ s, KeepsLevel (body s)) (hlevel : OnLevel parent c) (s : σ) :
    ∃ l r c', (iteration nodeName body s c).Returns l (r, c') ∧
      Folds (fun q s l r => ∃ c', (body s (entered c.documentTree q)).Returns l (r, c'))
        (nonEmpty (selected parent nodeName)) s l r ∧
      ∀ s', r = .ok s' → OnLevel parent c' ∧ c'.documentTree = c.documentTree := by
  have hvisit : ∀ q c' s, parent.On q → OnLevel parent c' → c'.savedPosition = q →
      c'.documentTree = c.documentTree →
      ∃ l r c'', (visit body s c').Returns l (r, c'') ∧ Visit body c.documentTree q s l r ∧
        ∀ s', r = .ok s' →
          OnLevel parent c'' ∧ c''.savedPosition = q ∧ c''.documentTree = c.documentTree := by
    intro q c' s hq hlevel' hsaved hd
    rw [← hd]
    exact visit_returns hbody hq hlevel' hsaved s
  obtain ⟨l, r, c', hrun, hfold, hok⟩ := selection_folds hlevel hvisit s
  exact ⟨l, r, c', hrun, hfold.nonEmpty, hok⟩

/-! ## Bodies -/

/-- What a body may consist of. -/
inductive Balanced {ε : Type} : {α : Type} → Conf ε α → Prop where
  | pure {α : Type} (a : α) : Balanced (pure a : Conf ε α)
  | throw {α : Type} (e : String) : Balanced (throw e : Conf ε α)
  | emit (e : ε) : Balanced (emit e)
  | bind {α β : Type} {p : Conf ε α} {f : α → Conf ε β} :
      Balanced p → (∀ a, Balanced (f a)) → Balanced (p >>= f)
  /-- the lookups, and what is read of the selected node -/
  | lookup {α : Type} {m : Member α} : (∀ c, (m c).2 = c) → Balanced (call m)
  | selectNode (nodeName : String) : Balanced (call (selectNodeIfExists nodeName))
  | selectNext : Balanced (call selectNextNodeIfExists)
  | selectNextNamed (nodeName : String) : Balanced (call (selectNextNamedIfExists nodeName))
  | within {α : Type} (nodeName : String) {p : Conf ε α} : Balanced p → Balanced (within nodeName p)
  /-- the selected node is entered and left -/
  | visit {σ : Type} {body : σ → Conf ε σ} (s : σ) : (∀ s, Balanced (body s)) →
    Balanced (visit body s)
  | selection {σ : Type} (nodeName : String) {body : σ → Conf ε σ} (s : σ) :
      (∀ s, Still (body s)) → Balanced (selection nodeName body s)
  | iteration {σ : Type} (nodeName : String) {body : σ → Conf ε σ} (s : σ) :
      (∀ s, Balanced (body s)) → Balanced (iteration nodeName body s)

theorem KeepsLevel.bind {p : Conf ε α} {f : α → Conf ε β} (hp : KeepsLevel p)
    (hf : ∀ a, KeepsLevel (f a)) :
    KeepsLevel (p >>= f) := by
  intro parent c hlevel
  obtain ⟨l, r, c1, hrun, hok⟩ := hp parent c hlevel
  cases r with
  | error e => exact ⟨l, .error e, c1, returns_bind_error hrun, fun a h => nomatch h⟩
  | ok a =>
    obtain ⟨hlevel1, hd1⟩ := hok a rfl
    obtain ⟨l', r', c2, hrun', hok'⟩ := hf a parent c1 hlevel1
    exact ⟨l ++ l', r', c2, returns_bind_ok hrun hrun',
      fun b h => ⟨(hok' b h).1, (hok' b h).2.trans hd1⟩⟩

/-- A call that stays on the level. -/
theorem keepsLevel_call {m : Member α}
    (hm : ∀ parent c, OnLevel parent c → OnLevel parent (m c).2 ∧
      (m c).2.documentTree = c.documentTree) :
    KeepsLevel (call m : Conf ε α) := fun parent c hlevel =>
  ⟨[], (m c).1, (m c).2, returns_call.mpr ⟨rfl, rfl⟩, fun _ _ => hm parent c hlevel⟩

theorem documentTree_select (c : XMLConfObj) (node : Option (XmlPtr String)) :
    (c.select node).2.documentTree = c.documentTree := by
  cases node <;> rfl

theorem documentTree_enterNode {nodeName : String} {c c' : XMLConfObj} {r : Except String Unit}
    (h : c.enterNode nodeName = (r, c')) : c'.documentTree = c.documentTree := by
  unfold enterNode at h
  split at h
  · cases h
    rfl
  · split at h <;> cases h <;> rfl

theorem KeepsLevel.within {p : Conf ε α} (hp : KeepsLevel p) (nodeName : String) :
    KeepsLevel (within nodeName p) := by
  intro parent c hlevel
  cases he : c.enterNode nodeName with
  | mk r c1 =>
    cases r with
    | error e =>
      have hcall : (call (enterNode nodeName) c : Proc ε _).Returns [] (.error e, c1) :=
        returns_call.mpr ⟨rfl, he.symm⟩
      exact ⟨[], .error e, c1, returns_bind_error hcall, fun a h => nomatch h⟩
    | ok u =>
      obtain ⟨q, hq, hlevel1⟩ := hlevel.enterNode he
      obtain ⟨l, r, c2, hrun, hok⟩ := hp q c1 hlevel1
      cases r with
      | error e =>
        exact
          ⟨l, .error e, c2, returns_call_bind he (returns_bind_error hrun), fun a h => nomatch h⟩
      | ok a =>
        obtain ⟨hlevel2, hd2⟩ := hok a rfl
        obtain ⟨c3, hleave, -, hd3, hlevel3⟩ := hlevel2.leaveNode hq hlevel.placed
        have hrest :=
          returns_call_bind (f := fun _ => (pure a : Conf ε α)) hleave (returns_pure_ok a c3)
        have hin :=
          returns_bind_ok (f := fun a => (do call leaveNode; pure a : Conf ε α)) hrun hrest
        rw [List.append_nil] at hin
        have hd1 : c1.documentTree = c.documentTree := documentTree_enterNode he
        exact
          ⟨l, .ok a, c3, returns_call_bind he hin, fun _ _ => ⟨hlevel3, hd3.trans (hd2.trans hd1)⟩⟩

/-- Where the document is selected, the visit leads from the root level to it. -/
theorem KeepsLevel.visit {body : σ → Conf ε σ} (hbody : ∀ s, KeepsLevel (body s)) (s : σ) :
    KeepsLevel (visit body s) := by
  intro parent c hlevel
  rcases hlevel.saved with hq | ⟨hsaved, level, rfl⟩
  · obtain ⟨l, r, c', hrun, -, hok⟩ := visit_returns hbody hq hlevel rfl s
    exact ⟨l, r, c', hrun, fun a h => ⟨(hok a h).1, (hok a h).2.2⟩⟩
  · cases hfirst : c.savedPosition.seekChild isElement with
    | none => exact ⟨[], .ok s, c, returns_visit_empty hfirst s, fun _ _ => ⟨hlevel, rfl⟩⟩
    | some first =>
      have hinside : OnLevel (.document level) (c.inside first) :=
        onLevel_inside c hlevel.placed (hsaved ▸ hfirst)
      obtain ⟨l, r, c1, hrun, hok⟩ := hbody s _ _ hinside
      cases r with
      | error e => exact ⟨l, .error e, c1, returns_visit_error hfirst hrun, fun a h => nomatch h⟩
      | ok s1 =>
        obtain ⟨hlevel1, hd1⟩ := hok s1 rfl
        exact ⟨l, .ok s1, _, returns_visit hfirst hrun hlevel1.leaveNode_root,
          fun _ _ => ⟨hlevel1.leaveNode_root_onLevel, hd1⟩⟩

theorem keepsLevel_selection {body : σ → Conf ε σ} (hbody : ∀ s, Still (body s)) (nodeName : String)
    (s : σ) : KeepsLevel (selection nodeName body s) := by
  intro parent c hlevel
  have hstill : ∀ q c' s, parent.On q → OnLevel parent c' → c'.savedPosition = q →
      c'.documentTree = c.documentTree →
      ∃ l r c'', (body s c').Returns l (r, c'') ∧ True ∧
        ∀ s', r = .ok s' →
          OnLevel parent c'' ∧ c''.savedPosition = q ∧ c''.documentTree = c.documentTree := by
    intro q c' s _ hlevel' hsaved hd
    obtain ⟨l, r, hrun⟩ := hbody s c'
    exact ⟨l, r, c', hrun, trivial, fun _ _ => ⟨hlevel', hsaved, hd⟩⟩
  obtain ⟨l, r, c', hrun, -, hok⟩ :=
    @selection_folds ε σ parent nodeName body c (fun _ _ _ _ => True) hlevel hstill s
  exact ⟨l, r, c', hrun, hok⟩

theorem KeepsLevel.iteration {body : σ → Conf ε σ} (hbody : ∀ s, KeepsLevel (body s))
    (nodeName : String) (s : σ) : KeepsLevel (iteration nodeName body s) := by
  intro parent c hlevel
  obtain ⟨l, r, c', hrun, -, hok⟩ := iteration_folds hbody hlevel s
  exact ⟨l, r, c', hrun, hok⟩

/-- A body ends on the level on which it began. -/
theorem Balanced.keepsLevel {p : Conf ε α} (h : Balanced p) : KeepsLevel p := by
  induction h with
  | pure a => exact fun parent c hlevel =>
    ⟨[], .ok a, c, returns_pure_ok a c, fun _ _ => ⟨hlevel, rfl⟩⟩
  | throw e =>
    exact fun parent c hlevel =>
      ⟨[], .error e, c, returns_pure.mpr ⟨rfl, rfl⟩, fun a h => nomatch h⟩
  | emit e =>
    exact fun parent c hlevel => ⟨[e], .ok (), c, returns_emit_ok e c, fun _ _ => ⟨hlevel, rfl⟩⟩
  | bind _ _ ihp ihf => exact ihp.bind ihf
  | lookup hm => exact keepsLevel_call fun parent c hlevel => by rw [hm c]; exact ⟨hlevel, rfl⟩
  | selectNode nodeName =>
    exact keepsLevel_call fun parent c hlevel =>
      ⟨hlevel.select fun q => hlevel.on_findNode, documentTree_select c _⟩
  | selectNext =>
    exact keepsLevel_call fun parent c hlevel =>
      ⟨hlevel.select fun q => hlevel.on_findNext, documentTree_select c _⟩
  | selectNextNamed nodeName =>
    exact keepsLevel_call fun parent c hlevel =>
      ⟨hlevel.select fun q => hlevel.on_findNext, documentTree_select c _⟩
  | within nodeName _ ih => exact ih.within nodeName
  | visit s _ ih => exact .visit ih s
  | selection nodeName s hstill => exact keepsLevel_selection hstill nodeName s
  | iteration nodeName s _ ih => exact .iteration ih nodeName s

/-! ## The loop -/

/-- The elements of a name on the current level that have elements in them, in the order of the
document. -/
def visited (c : XMLConfObj) (nodeName : String) : List (XmlPtr String) :=
  match c.currentLevel.parent? with
  | some parent => nonEmpty (selected parent nodeName)
  | none => []

theorem OnLevel.visited (hlevel : OnLevel parent c) (nodeName : String) :
    c.visited nodeName = nonEmpty (selected parent nodeName) := by
  rw [XMLConfObj.visited, hlevel.parent?_eq]

theorem OnLevel.mem_visited (hlevel : OnLevel parent c) {q : XmlPtr String} :
    q ∈ c.visited nodeName ↔
      parent.On q ∧ q.is (named nodeName) = true ∧ (q.seekChild isElement).isSome = true := by
  rw [hlevel.visited, nonEmpty, selected, List.mem_filter, List.mem_filter, XmlPtr.mem_childNodes,
    and_assoc]

theorem nodup_visited (c : XMLConfObj) (nodeName : String) : (c.visited nodeName).Nodup := by
  unfold visited
  split
  · exact (XmlPtr.nodup_places.filter _).filter _
  · exact List.nodup_nil

/-- The loop with a body of lookups, loops and balanced entering and leaving, on any object that is
in use: it ends, its result is that of the body in the one element after another, and if none of
these throws, the named lookups answer as before. -/
theorem iteration_visits (h : system.Reachable c) (nodeName : String)
    (hbody : ∀ s, Balanced (body s)) (s : σ) :
    (c.visited nodeName).Nodup ∧ ∃ l r c', (iteration nodeName body s c).Returns l (r, c') ∧
      Folds (fun q s l r => ∃ c', (body s (entered c.documentTree q)).Returns l (r, c'))
        (c.visited nodeName) s l r ∧
      ∀ s', r = .ok s' → SameLookups c c' := by
  obtain ⟨parent, hlevel⟩ := valid_reachable h
  obtain ⟨l, r, c', hrun, hfold, hok⟩ := iteration_folds (fun s => (hbody s).keepsLevel) hlevel s
  rw [← hlevel.visited nodeName] at hfold
  exact
    ⟨nodup_visited c nodeName, l, r, c', hrun, hfold, fun s' h => hlevel.sameLookups (hok s' h).1⟩

/-- The values of `b` in a message, as events. -/
def readB : Unit → Conf (List Char) Unit := fun _ => do
  let value ← call (getValueOf "b")
  Conf.emit value

theorem balanced_readB (s : Unit) : Balanced (readB s) :=
  .bind (.lookup fun c => getValueOf_object c "b") fun value => .emit value

theorem iteration_message :
    (message.visited "a").Nodup ∧ ∃ l r c', (iteration "a" readB () message).Returns l (r, c') ∧
      Folds (fun q s l r => ∃ c', (readB s (entered message.documentTree q)).Returns l (r, c'))
        (message.visited "a") () l r ∧
      ∀ s', r = .ok s' → SameLookups message c' :=
  iteration_visits message_reachable "a" balanced_readB ()

example : ((iteration "a" readB () message).run 3).1 = [['1']] := by rfl

/-! ## The list of detection modules -/

/-- The arguments of `Manager::addDetectionModule`. -/
structure AddDetectionModule where
  filename : List Char
  configFile : List Char
  args : List (List Char)
  start : Bool
  deriving DecidableEq, Repr

/-! mirrors commonutils/global.h:51-56 -/

def DETECTIONMODULES : String := "modules"
def DETECTIONMODULE : String := "module"
def FILENAME : String := "filename"
def CONFIG_FILE : String := "configFile"
def RUN : String := "run"
def ARG : String := "arg"

/-- mirrors collector/collector.cpp:196-199 -/
def addArg (args : List (List Char)) : Conf AddDetectionModule (List (List Char)) := do
  let arg ← call getValue
  pure (args ++ [arg])

/-- mirrors collector/collector.cpp:191-209 -/
def readDetectionModule : Unit → Conf AddDetectionModule Unit := fun _ => do
  let filename ← call (getValueOf FILENAME)
  let configFile ← call (getValueOf CONFIG_FILE)
  let run ← call (getValueOf RUN)
  let args ← selection ARG addArg []
  if run = "yes".toList then Conf.emit ⟨filename, configFile, args, true⟩
  else if run = "no".toList then Conf.emit ⟨filename, configFile, args, false⟩
  else Conf.throw ("Bad value for <" ++ RUN ++ ">. Expecting \"yes\" or \"no\"")

/-- mirrors collector/collector.cpp:183-215 -/
def readDetectionModules : Conf AddDetectionModule Unit :=
  within DETECTIONMODULES (iteration DETECTIONMODULE readDetectionModule ())

theorem still_addArg (args : List (List Char)) : Still (addArg args) := fun c =>
  ⟨[], .ok (args ++ [c.savedPosition.content]), returns_call_bind rfl (returns_pure_ok _ c)⟩

theorem balanced_readDetectionModule (u : Unit) : Balanced (readDetectionModule u) := by
  have hlookup :
      ∀ nodeName, Balanced (call (getValueOf nodeName) : Conf AddDetectionModule (List Char)) :=
    fun nodeName => .lookup fun c => getValueOf_object c nodeName
  refine .bind (hlookup FILENAME) fun filename => .bind (hlookup CONFIG_FILE) fun configFile =>
    .bind (hlookup RUN) fun run => .bind (.selection ARG [] still_addArg) fun args => ?_
  split
  · exact .emit _
  · split
    · exact .emit _
    · exact .throw _

/-- The modules of a configuration are read in order, and what is read behind them is found as if
they had not been. -/
theorem readDetectionModules_keepsLevel : KeepsLevel readDetectionModules :=
  (Balanced.within DETECTIONMODULES
    (.iteration DETECTIONMODULE () balanced_readDetectionModule)).keepsLevel

end Levels

end XMLConfObj

end Topas
