import Mathlib.Algebra.GroupWithZero.Nat
import Mathlib.Data.List.Nodup
/-!
# Trees with a label on every edge

A tree is a leaf with a value, or a node whose children are told apart by
labels. A leaf is found by the labels on the way to it (`leaves`). When
the children of every node have distinct labels (`Distinct`), no two
leaves have the same way.
-/


namespace Zooffice

/-- A leaf, or a node with labelled children. -/
inductive LabelledTree (ν β : Type) where
  | leaf (value : β)
  | node (children : List (ν × LabelledTree ν β))

namespace LabelledTree

variable {ν β : Type}

/-- Whether it is a node. -/
def isNode : LabelledTree ν β → Bool
  | leaf _ => false
  | node _ => true

mutual

/-- The leaves with the labels on the way to them, behind those on the way
to the tree. -/
def leaves (way : List ν) : LabelledTree ν β → List (List ν × β)
  | leaf value => [(way, value)]
  | node children => leavesOfAll way children
termination_by structural t => t

/-- The leaves of all the children. -/
def leavesOfAll (way : List ν) : List (ν × LabelledTree ν β) → List (List ν × β)
  | [] => []
  | (label, t) :: rest => t.leaves (way ++ [label]) ++ leavesOfAll way rest
termination_by structural children => children

end

mutual

/-- How many leaves and nodes there are. -/
def size : LabelledTree ν β → Nat
  | leaf _ => 1
  | node children => sizeOfAll children + 1
termination_by structural t => t

/-- How many there are in all the children. -/
def sizeOfAll : List (ν × LabelledTree ν β) → Nat
  | [] => 0
  | (_, t) :: rest => t.size + sizeOfAll rest
termination_by structural children => children

end

mutual

/-- Every label is as `P` says, and the children of a node have distinct
labels. -/
def Distinct (P : ν → Prop) : LabelledTree ν β → Prop
  | leaf _ => True
  | node children => DistinctAll P children
termination_by structural t => t

/-- The same for the children of a node. -/
def DistinctAll (P : ν → Prop) : List (ν × LabelledTree ν β) → Prop
  | [] => True
  | (label, t) :: rest =>
      (P label ∧ label ∉ rest.map Prod.fst) ∧ t.Distinct P ∧ DistinctAll P rest
termination_by structural children => children

end

theorem leavesOfAll_eq_flatMap (way : List ν) (children : List (ν × LabelledTree ν β)) :
    leavesOfAll way children = children.flatMap fun c => c.2.leaves (way ++ [c.1]) := by
  induction children with
  | nil => rfl
  | cons c rest ih => rw [leavesOfAll, ih, List.flatMap_cons]

theorem sizeOfAll_eq_sum (children : List (ν × LabelledTree ν β)) :
    sizeOfAll children = (children.map fun c => c.2.size).sum := by
  induction children with
  | nil => rfl
  | cons c rest ih => rw [sizeOfAll, ih, List.map_cons, List.sum_cons]

theorem size_pos (t : LabelledTree ν β) : 0 < t.size := by
  cases t with
  | leaf value => rw [size]; omega
  | node children => rw [size]; omega

/-- What holds of all the children holds of each. -/
theorem distinct_of_mem {P : ν → Prop} {children : List (ν × LabelledTree ν β)}
    (h : DistinctAll P children) {c : ν × LabelledTree ν β} (hc : c ∈ children) :
    P c.1 ∧ c.2.Distinct P := by
  induction children with
  | nil => exact absurd hc (by simp)
  | cons c' rest ih =>
      -- the head has what is asked, the rest by induction
      obtain ⟨⟨hP, -⟩, hc', hrest⟩ := h
      rcases List.mem_cons.1 hc with rfl | hc
      · exact ⟨hP, hc'⟩
      · exact ih hrest hc

mutual

/-- A leaf is behind the way to its tree, by labels that `P` holds of. -/
theorem way_of_mem_leaves {P : ν → Prop} {way : List ν} {l : List ν × β} {t : LabelledTree ν β}
    (ht : t.Distinct P) (h : l ∈ t.leaves way) : ∃ r, l.1 = way ++ r ∧ ∀ label ∈ r, P label := by
  cases t with
  | leaf value =>
      rw [leaves, List.mem_singleton] at h
      exact ⟨[], by rw [h, List.append_nil], by simp⟩
  | node children =>
      rw [leaves] at h
      rw [Distinct] at ht
      obtain ⟨label, r, -, heq, hr⟩ := way_of_mem_leavesOfAll ht h
      exact ⟨label :: r, heq, hr⟩

theorem way_of_mem_leavesOfAll {P : ν → Prop} {way : List ν} {l : List ν × β}
    {children : List (ν × LabelledTree ν β)} (ht : DistinctAll P children)
    (h : l ∈ leavesOfAll way children) :
    ∃ label r, label ∈ children.map Prod.fst ∧ l.1 = way ++ label :: r ∧
      ∀ x ∈ label :: r, P x := by
  cases children with
  | nil => exact absurd h (by simp [leavesOfAll])
  | cons c rest =>
      rw [leavesOfAll, List.mem_append] at h
      obtain ⟨⟨hP, -⟩, hc, hrest⟩ := ht
      rcases h with h | h
      · obtain ⟨r, heq, hr⟩ := way_of_mem_leaves hc h
        refine ⟨c.1, r, List.mem_cons_self, ?_, ?_⟩
        · rw [heq, List.append_assoc, List.singleton_append]
        · intro x hx
          rcases List.mem_cons.1 hx with rfl | hx
          · exact hP
          · exact hr x hx
      · obtain ⟨label, r, hmem, heq, hr⟩ := way_of_mem_leavesOfAll hrest h
        exact ⟨label, r, List.mem_cons_of_mem _ hmem, heq, hr⟩

end

mutual

/-- **No two leaves have the same way.** -/
theorem nodup_leaves {P : ν → Prop} {t : LabelledTree ν β} (ht : t.Distinct P) (way : List ν) :
    ((t.leaves way).map Prod.fst).Nodup := by
  cases t with
  | leaf value => simp [leaves]
  | node children =>
      rw [leaves]
      exact nodup_leavesOfAll ht way

theorem nodup_leavesOfAll {P : ν → Prop} {children : List (ν × LabelledTree ν β)}
    (ht : DistinctAll P children) (way : List ν) :
    ((leavesOfAll way children).map Prod.fst).Nodup := by
  cases children with
  | nil => simp [leavesOfAll]
  | cons c rest =>
      obtain ⟨⟨-, hmem⟩, hc, hrest⟩ := ht
      rw [leavesOfAll, List.map_append]
      refine List.Nodup.append (nodup_leaves hc _) (nodup_leavesOfAll hrest way) ?_
      intro w hw hw'
      obtain ⟨l, hl, rfl⟩ := List.mem_map.1 hw
      obtain ⟨l', hl', heq'⟩ := List.mem_map.1 hw'
      obtain ⟨r, heq, -⟩ := way_of_mem_leaves hc hl
      obtain ⟨label, r', hlabel, heq'', -⟩ := way_of_mem_leavesOfAll hrest hl'
      -- the ways part at the first label
      rw [heq', heq, List.append_assoc, List.append_cancel_left_eq] at heq''
      have hhead := (List.cons.inj heq'').1
      exact hmem (hhead ▸ hlabel)

end

/-! ## No leaf is on the way to another -/

mutual

/-- **The way to a leaf does not go on to another leaf.** -/
theorem eq_of_isPrefix_of_mem_leaves {P : ν → Prop} {way : List ν} {l l' : List ν × β}
    {t : LabelledTree ν β} (ht : t.Distinct P) (hl : l ∈ t.leaves way) (hl' : l' ∈ t.leaves way)
    (h : l.1 <+: l'.1) : l.1 = l'.1 := by
  cases t with
  | leaf value =>
      rw [leaves, List.mem_singleton] at hl hl'
      rw [hl, hl']
  | node children =>
      rw [leaves] at hl hl'
      exact eq_of_isPrefix_of_mem_leavesOfAll ht hl hl' h

theorem eq_of_isPrefix_of_mem_leavesOfAll {P : ν → Prop} {way : List ν} {l l' : List ν × β}
    {children : List (ν × LabelledTree ν β)} (ht : DistinctAll P children)
    (hl : l ∈ leavesOfAll way children) (hl' : l' ∈ leavesOfAll way children)
    (h : l.1 <+: l'.1) : l.1 = l'.1 := by
  cases children with
  | nil => exact absurd hl List.not_mem_nil
  | cons c rest =>
      obtain ⟨⟨-, hmem⟩, hc, hrest⟩ := ht
      rw [leavesOfAll, List.mem_append] at hl hl'
      -- the ways of leaves of different children part at their labels
      have hpart : ∀ m ∈ c.2.leaves (way ++ [c.1]), ∀ m' ∈ leavesOfAll way rest,
          ¬m.1 <+: m'.1 ∧ ¬m'.1 <+: m.1 := by
        intro m hm m' hm'
        obtain ⟨r, heq, -⟩ := way_of_mem_leaves hc hm
        obtain ⟨label, r', hlabel, heq', -⟩ := way_of_mem_leavesOfAll hrest hm'
        have hne : c.1 ≠ label := fun heq => hmem (heq ▸ hlabel)
        rw [heq, heq', List.append_assoc, List.prefix_append_right_inj,
          List.prefix_append_right_inj]
        exact ⟨fun hp => hne (List.cons_prefix_cons.1 hp).1,
          fun hp => hne (List.cons_prefix_cons.1 hp).1.symm⟩
      rcases hl with hl | hl <;> rcases hl' with hl' | hl'
      · exact eq_of_isPrefix_of_mem_leaves hc hl hl' h
      · exact absurd h (hpart l hl l' hl').1
      · exact absurd h (hpart l' hl' l hl).2
      · exact eq_of_isPrefix_of_mem_leavesOfAll hrest hl hl' h

end

end LabelledTree

end Zooffice
