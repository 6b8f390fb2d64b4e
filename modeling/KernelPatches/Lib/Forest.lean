/-
  Forests: first what is below a node, then what comes after it.

  A forest is empty, or a first tree, given by its root and the forest of its children, and the rest.  This is how
  a program has a tree that links each node to its first child and to its next sibling, and what is proved about a
  walk over it is proved by induction on a forest, in the order of the walk.

  * `Forest.nodes`            — the nodes in preorder;
  * `Forest.Spans`            — the children of the nodes are those of a given function;
  * `Forest.kept`             — the nodes that are come to when only some are gone down to;
  * `Forest.nodes_pairwise`   — in preorder no node comes before one that it is below;
  * `Forest.mem_kept_iff`     — what is come to is what can be reached.
-/
import Mathlib.Logic.Relation
import Mathlib.Tactic.Common

namespace KernelPatches.Lib

/-- A forest: the root of its first tree, what is below it, and the rest. -/
inductive Forest (α : Type*) where
  | nil
  | cons (a : α) (below rest : Forest α)

namespace Forest

variable {α : Type*}

/-- The roots. -/
def heads : Forest α → List α
  | nil => []
  | cons a _ rest => a :: rest.heads

/-- The nodes, in preorder. -/
def nodes : Forest α → List α
  | nil => []
  | cons a below rest => a :: (below.nodes ++ rest.nodes)

/-- The children of each node are the roots of what is below it. -/
def Spans (children : α → List α) : Forest α → Prop
  | nil => True
  | cons a below rest => children a = below.heads ∧ below.Spans children ∧ rest.Spans children

/-- The nodes that are come to, in preorder, when a node is only gone down to if it is to be kept. -/
def kept (keep : α → Bool) : Forest α → List α
  | nil => []
  | cons a below rest => (if keep a then a :: below.kept keep else []) ++ rest.kept keep

/-- One node is below another one. -/
def Below (children : α → List α) : α → α → Prop := Relation.TransGen fun a b => b ∈ children a

/-- A node can be reached over nodes that are kept. -/
def Reaches (children : α → List α) (keep : α → Bool) : α → α → Prop :=
  Relation.ReflTransGen fun a b => b ∈ children a ∧ keep b = true

section

variable {children : α → List α} {keep : α → Bool} {f : Forest α} {a b : α}

theorem heads_sublist (f : Forest α) : List.Sublist f.heads f.nodes := by
  induction f with
  | nil => exact List.Sublist.refl _
  | cons a below rest _ ih => exact (ih.trans (List.sublist_append_right _ _)).cons_cons a

/-- A child of a node is a node. -/
theorem mem_nodes_of_child (h : f.Spans children) (ha : a ∈ f.nodes) (hb : b ∈ children a) : b ∈ f.nodes := by
  induction f with
  | nil => cases ha
  | cons x below rest ihb ihr =>
    obtain ⟨hx, hbelow, hrest⟩ := h
    rcases List.mem_cons.mp ha with rfl | ha
    · rw [hx] at hb
      exact List.mem_cons_of_mem _ (List.mem_append_left _ ((heads_sublist below).subset hb))
    · rcases List.mem_append.mp ha with ha | ha
      · exact List.mem_cons_of_mem _ (List.mem_append_left _ (ihb hbelow ha))
      · exact List.mem_cons_of_mem _ (List.mem_append_right _ (ihr hrest ha))

/-- So is what is below it. -/
theorem mem_nodes_of_below (h : f.Spans children) (ha : a ∈ f.nodes) (hb : Below children a b) : b ∈ f.nodes := by
  induction hb with
  | single hb => exact mem_nodes_of_child h ha hb
  | tail _ hb ih => exact mem_nodes_of_child h ih hb

/-- **Preorder**: no node comes before one that it is below. -/
theorem nodes_pairwise (h : f.Spans children) (hn : f.nodes.Nodup) :
    f.nodes.Pairwise fun a b => ¬ Below children b a := by
  induction f with
  | nil => exact List.Pairwise.nil
  | cons x below rest ihb ihr =>
    obtain ⟨-, hbelow, hrest⟩ := h
    obtain ⟨hx, hn⟩ := List.nodup_cons.mp hn
    obtain ⟨hnb, hnr, hdis⟩ := List.nodup_append.mp hn
    refine List.pairwise_cons.mpr ⟨fun y hy hbel => hx ?_, List.pairwise_append.mpr ⟨ihb hbelow hnb, ihr hrest hnr, ?_⟩⟩
    · rcases List.mem_append.mp hy with hy | hy
      · exact List.mem_append_left _ (mem_nodes_of_below hbelow hy hbel)
      · exact List.mem_append_right _ (mem_nodes_of_below hrest hy hbel)
    · intro a ha b hb hbel
      exact hdis a ha a (mem_nodes_of_below hrest hb hbel) rfl

/-! ## What is come to -/

theorem kept_cons (a : α) (below rest : Forest α) : (cons a below rest).kept keep =
    (if keep a then a :: below.kept keep else []) ++ rest.kept keep := rfl

theorem kept_sublist (keep : α → Bool) (f : Forest α) : List.Sublist (f.kept keep) f.nodes := by
  induction f with
  | nil => exact List.Sublist.refl _
  | cons a below rest ihb ihr =>
    unfold kept nodes
    split
    · exact (ihb.append ihr).cons_cons a
    · exact ((List.nil_sublist _).append ihr).cons a

theorem keep_of_mem_kept (ha : a ∈ f.kept keep) : keep a = true := by
  induction f with
  | nil => cases ha
  | cons x below rest ihb ihr =>
    unfold kept at ha
    rcases List.mem_append.mp ha with ha | ha
    · split at ha
      · rename_i hk
        rcases List.mem_cons.mp ha with rfl | ha
        · exact hk
        · exact ihb ha
      · cases ha
    · exact ihr ha

theorem mem_kept_of_heads (ha : a ∈ f.heads) (hk : keep a = true) : a ∈ f.kept keep := by
  induction f with
  | nil => cases ha
  | cons x below rest _ ihr =>
    rcases List.mem_cons.mp ha with rfl | ha
    · unfold kept
      rw [if_pos hk]
      exact List.mem_append_left _ List.mem_cons_self
    · exact List.mem_append_right _ (ihr ha)

/-- From a node that is come to, its children are, if they are kept. -/
theorem mem_kept_of_child (h : f.Spans children) (ha : a ∈ f.kept keep) (hb : b ∈ children a) (hk : keep b = true) :
    b ∈ f.kept keep := by
  induction f with
  | nil => cases ha
  | cons x below rest ihb ihr =>
    obtain ⟨hx, hbelow, hrest⟩ := h
    unfold kept at ha ⊢
    rcases List.mem_append.mp ha with ha | ha
    · split at ha
      · rename_i hkx
        rw [if_pos hkx]
        apply List.mem_append_left
        rcases List.mem_cons.mp ha with rfl | ha
        · rw [hx] at hb
          exact List.mem_cons_of_mem _ (mem_kept_of_heads hb hk)
        · exact List.mem_cons_of_mem _ (ihb hbelow ha)
      · cases ha
    · exact List.mem_append_right _ (ihr hrest ha)

theorem reaches_of_mem_kept (h : f.Spans children) (hb : b ∈ f.kept keep) :
    ∃ a ∈ f.heads, keep a = true ∧ Reaches children keep a b := by
  induction f with
  | nil => cases hb
  | cons x below rest ihb ihr =>
    obtain ⟨hx, hbelow, hrest⟩ := h
    unfold kept at hb
    rcases List.mem_append.mp hb with hb | hb
    · split at hb
      · rename_i hkx
        refine ⟨x, List.mem_cons_self, hkx, ?_⟩
        rcases List.mem_cons.mp hb with rfl | hb
        · exact Relation.ReflTransGen.refl
        · obtain ⟨a, ha, hka, hreach⟩ := ihb hbelow hb
          rw [← hx] at ha
          exact Relation.ReflTransGen.head ⟨ha, hka⟩ hreach
      · cases hb
    · obtain ⟨a, ha, hrest'⟩ := ihr hrest hb
      exact ⟨a, List.mem_cons_of_mem _ ha, hrest'⟩

/-- **What is come to from a root** is what can be reached from it. -/
theorem mem_kept_iff (h : f.Spans children) (hr : children a = f.heads) :
    b ∈ a :: f.kept keep ↔ Reaches children keep a b := by
  constructor
  · intro hb
    rcases List.mem_cons.mp hb with rfl | hb
    · exact Relation.ReflTransGen.refl
    · obtain ⟨x, hx, hk, hreach⟩ := reaches_of_mem_kept h hb
      rw [← hr] at hx
      exact Relation.ReflTransGen.head ⟨hx, hk⟩ hreach
  · intro hb
    induction hb with
    | refl => exact List.mem_cons_self
    | @tail x y _ hstep ih =>
      obtain ⟨hchild, hk⟩ := hstep
      rcases List.mem_cons.mp ih with rfl | hx
      · rw [hr] at hchild
        exact List.mem_cons_of_mem _ (mem_kept_of_heads hchild hk)
      · exact List.mem_cons_of_mem _ (mem_kept_of_child h hx hchild hk)

end

end Forest

end KernelPatches.Lib
