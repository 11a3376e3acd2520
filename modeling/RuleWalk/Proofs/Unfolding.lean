import RuleWalk.Value.Basic

/-!
# Unfoldings

Where every value has children, a value unfolds into an ordered tree. A node that can be reached in
two ways unfolds once for each of them, so the tree speaks of occurrences and not of values.

`Ahead` reads the same tree off a fringe, one node after the other; `Forest.Unfolds.ahead` says that
this gives the recursive listing.
-/

namespace RuleWalk

/-- Finite ordered trees side by side: the root of the first, the trees below it, and the others. -/
inductive Forest where
  | nil
  | cons (value : Value) (children siblings : Forest)

/-- A place in a tree: a node and its proper ancestors, the root first. -/
structure Occurrence where
  above : List Value
  node : Value

namespace Forest

variable {kids : Value → List Value} {f : Forest}

def roots : Forest → List Value
  | nil => []
  | cons v _ s => v :: s.roots

/-- Each root, then what is below it, tree after tree. -/
def preorder : Forest → List Value
  | nil => []
  | cons v c s => v :: (c.preorder ++ s.preorder)

/-- How many nodes stand below each other at most. -/
def height : Forest → Nat
  | nil => 0
  | cons _ c s => max (c.height + 1) s.height

/-- The places in pre-order, when the trees stand below the nodes `above`. -/
def occurrences (above : List Value) : Forest → List Occurrence
  | nil => []
  | cons v c s => ⟨above, v⟩ :: (c.occurrences (above ++ [v]) ++ s.occurrences above)

/-- Every node has exactly the children that `kids` gives it. -/
def Unfolds (kids : Value → List Value) : Forest → Prop
  | nil => True
  | cons v c s => c.roots = kids v ∧ c.Unfolds kids ∧ s.Unfolds kids

theorem map_node_occurrences (above : List Value) (f : Forest) :
    (f.occurrences above).map (·.node) = f.preorder := by
  induction f generalizing above with
  | nil => rfl
  | cons v c s ihc ihs =>
    rw [occurrences, preorder, List.map_cons, List.map_append, ihc, ihs]

/-- Removes what is below the nodes where `p` holds. -/
def cut (p : Value → Bool) : Forest → Forest
  | nil => nil
  | cons v c s => cons v (if p v then nil else c.cut p) (s.cut p)

@[simp] theorem roots_cut (p : Value → Bool) (f : Forest) : (f.cut p).roots = f.roots := by
  induction f with
  | nil => rfl
  | cons v c s _ ihs => simp only [cut, roots, ihs]

/-- A forest that was cut unfolds by the children that were left. -/
theorem Unfolds.cut (p : Value → Bool) (h : f.Unfolds kids) :
    (f.cut p).Unfolds fun v => if p v then [] else kids v := by
  induction f with
  | nil => trivial
  | cons v c s ihc ihs =>
    obtain ⟨hroots, hc, hs⟩ := h
    by_cases hv : p v
    · simp only [Forest.cut, hv, if_true]
      exact ⟨by simp [hv, roots], trivial, ihs hs⟩
    · simp only [Forest.cut, hv]
      exact ⟨by simp [hv, hroots], ihc hc, ihs hs⟩

end Forest

/-- No proper ancestor satisfies `p`. -/
def Occurrence.isVisible (p : Value → Bool) (o : Occurrence) : Bool := o.above.all fun a => !p a

namespace Forest

/-- Below a node that satisfies `p`, nothing is visible. -/
theorem filter_isVisible_eq_nil {p : Value → Bool} {above : List Value}
    (h : (above.all fun a => !p a) = false) (f : Forest) :
    (f.occurrences above).filter (Occurrence.isVisible p) = [] := by
  induction f generalizing above with
  | nil => rfl
  | cons v c s ihc ihs =>
    have hv : ((above ++ [v]).all fun a => !p a) = false := by
      rw [List.all_append, h, Bool.false_and]
    simp [occurrences, Occurrence.isVisible, h, ihc hv, ihs h]

/-- Removing what is below the nodes where `p` holds leaves the visible places, in order. -/
theorem preorder_cut {p : Value → Bool} {above : List Value}
    (h : (above.all fun a => !p a) = true) (f : Forest) :
    (f.cut p).preorder = ((f.occurrences above).filter (Occurrence.isVisible p)).map (·.node) := by
  induction f generalizing above with
  | nil => rfl
  | cons v c s ihc ihs =>
    by_cases hv : p v
    · have hbelow : ((above ++ [v]).all fun a => !p a) = false := by simp [hv]
      simp [cut, preorder, occurrences, Occurrence.isVisible, h, hv, ihs h,
        filter_isVisible_eq_nil hbelow]
    · have hbelow : ((above ++ [v]).all fun a => !p a) = true := by
        rw [List.all_append, h]
        simpa using hv
      simp [cut, preorder, occurrences, Occurrence.isVisible, h, hv, ihs h, ihc hbelow]

end Forest

/-- The tree into which `root` unfolds, when that is finite. -/
structure Unfolding (kids : Value → List Value) (root : Value) where
  below : Forest
  roots_below : below.roots = kids root
  unfolds_below : below.Unfolds kids

namespace Unfolding

variable {kids : Value → List Value} {root : Value}

/-- The root, then what is below it, child after child. -/
def preorder (t : Unfolding kids root) : List Value := root :: t.below.preorder

/-- How many nodes stand below each other at most, the root among them. -/
def height (t : Unfolding kids root) : Nat := t.below.height + 1

/-- The places of the tree in pre-order. -/
def occurrences (t : Unfolding kids root) : List Occurrence :=
  ⟨[], root⟩ :: t.below.occurrences [root]

theorem map_node_occurrences (t : Unfolding kids root) :
    t.occurrences.map (·.node) = t.preorder := by
  rw [occurrences, preorder, List.map_cons, Forest.map_node_occurrences]

/-- The tree without what is below the nodes where `p` holds. -/
def cut (p : Value → Bool) (t : Unfolding kids root) :
    Unfolding (fun v => if p v then [] else kids v) root where
  below := if p root then .nil else t.below.cut p
  roots_below := by
    split
    · rfl
    · rw [Forest.roots_cut, t.roots_below]
  unfolds_below := by
    split
    · trivial
    · exact t.unfolds_below.cut p

theorem preorder_cut (p : Value → Bool) (t : Unfolding kids root) :
    (t.cut p).preorder = (t.occurrences.filter (Occurrence.isVisible p)).map (·.node) := by
  have hself : Occurrence.isVisible p ⟨[], root⟩ = true := rfl
  rw [occurrences, List.filter_cons_of_pos hself, List.map_cons, preorder]
  by_cases hroot : p root
  · have hbelow : (([root] : List Value).all fun a => !p a) = false := by simp [hroot]
    simp [cut, hroot, Forest.preorder, Forest.filter_isVisible_eq_nil hbelow]
  · have hbelow : (([root] : List Value).all fun a => !p a) = true := by simp [hroot]
    simp [cut, hroot, Forest.preorder_cut hbelow]

end Unfolding

/-- Taking one node after the other off the fringe, its children in its place, takes off `l` and
then the fringe is empty. -/
inductive Ahead {α : Type} (kids : α → List α) : List α → List α → Prop
  | done : Ahead kids [] []
  | next {v : α} {rest l : List α} (h : Ahead kids (kids v ++ rest) l) :
      Ahead kids (v :: rest) (v :: l)

/-- Whatever is on the fringe lies ahead. -/
theorem Ahead.sublist {α : Type} {kids : α → List α} {fringe l : List α}
    (h : Ahead kids fringe l) : fringe.Sublist l := by
  induction h with
  | done => exact List.Sublist.slnil
  | next _ ih => exact ((List.sublist_append_right _ _).trans ih).cons_cons _

/-- What waits on the fringe behind a forest comes after all of the forest. -/
theorem Forest.Unfolds.ahead {kids : Value → List Value} {f : Forest} {rest l : List Value}
    (hf : f.Unfolds kids) (h : Ahead kids rest l) :
    Ahead kids (f.roots ++ rest) (f.preorder ++ l) := by
  -- The siblings go through first, so that they are the rest for what is below the first root.
  induction f generalizing rest l with
  | nil => exact h
  | cons v c s ihc ihs =>
    obtain ⟨hroots, hc, hs⟩ := hf
    have hbelow := ihc hc (ihs hs h)
    rw [hroots] at hbelow
    simp only [roots, preorder, List.cons_append, List.append_assoc]
    exact .next hbelow

/-- The places right below a place. -/
def Occurrence.below (kids : Value → List Value) (o : Occurrence) : List Occurrence :=
  (kids o.node).map fun v => ⟨o.above ++ [o.node], v⟩

theorem Occurrence.map_node_below (kids : Value → List Value) (o : Occurrence) :
    (o.below kids).map (·.node) = kids o.node := by
  rw [below, List.map_map]
  exact List.map_id _

/-- The same with all that is above each node. -/
theorem Forest.Unfolds.ahead_occurrences {kids : Value → List Value} {f : Forest}
    {above : List Value} {rest l : List Occurrence} (hf : f.Unfolds kids)
    (h : Ahead (Occurrence.below kids) rest l) :
    Ahead (Occurrence.below kids) (f.roots.map (⟨above, ·⟩) ++ rest)
      (f.occurrences above ++ l) := by
  induction f generalizing above rest l with
  | nil => exact h
  | cons v c s ihc ihs =>
    obtain ⟨hroots, hc, hs⟩ := hf
    have hsiblings : Ahead (Occurrence.below kids) (s.roots.map (⟨above, ·⟩) ++ rest)
        (s.occurrences above ++ l) := ihs hs h
    have hbelow : Ahead (Occurrence.below kids) (c.roots.map (⟨above ++ [v], ·⟩) ++ _)
        (c.occurrences (above ++ [v]) ++ _) := ihc hc hsiblings
    rw [hroots] at hbelow
    simp only [roots, occurrences, List.map_cons, List.cons_append, List.append_assoc]
    exact .next hbelow

/-- From a fringe that holds the root alone, the whole listing lies ahead. -/
theorem Unfolding.ahead {kids : Value → List Value} {root : Value} (t : Unfolding kids root) :
    Ahead kids [root] t.preorder := by
  have h := t.unfolds_below.ahead .done
  rw [t.roots_below, List.append_nil t.below.preorder] at h
  exact .next h

theorem Unfolding.ahead_occurrences {kids : Value → List Value} {root : Value}
    (t : Unfolding kids root) : Ahead (Occurrence.below kids) [⟨[], root⟩] t.occurrences := by
  have h : Ahead (Occurrence.below kids) _ (t.below.occurrences [root] ++ []) :=
    t.unfolds_below.ahead_occurrences .done
  rw [t.roots_below, List.append_nil (t.below.occurrences [root])] at h
  exact .next h

end RuleWalk
