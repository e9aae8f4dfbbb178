import Metrology.Proofs.Filter.NodeShape
import Metrology.Proofs.Filter.Query

/-!
# Depth and height

The depth of a tree is found with a list of nodes still to visit.  Such a list has a
*reach*, the largest distance of a node in it or below it.  Visiting a node trades its
own reach for that of its subtrees, so the larger of the reach and of the deepest
distance so far never changes (`depthFrom_eq`).  At the end it is the number of levels.

A tree has a text exactly if it is renderable and not deeper than the limit.  Writing
checks both on one way, shape and depth at every node, so each half of this needs the
whole writer: what a text tells about the tree, and what a renderable tree leaves to fail.

A condition knows its height without its tree.  The text of its tree can fail by the
depth alone, and it does so exactly where the height is above the limit.
-/

namespace Metrology.Filter

namespace Tree

/-! ## Nodes still to visit -/

/-- The largest distance of a node in or below those still to visit. -/
def Pending.reach : Pending → Nat
  | [] => 0
  | (t, d) :: rest => max (d + levelsOfAll t.children) (Pending.reach rest)

theorem Pending.reach_append (p q : Pending) :
    Pending.reach (p ++ q) = max (Pending.reach p) (Pending.reach q) := by
  induction p with
  | nil => rw [List.nil_append, reach, Nat.zero_max]
  | cons entry p ih => rw [List.cons_append, reach, reach, ih, Nat.max_assoc]

theorem levels_eq (t : Tree) : t.levels = levelsOfAll t.children + 1 := by
  cases t with
  | node token children => rfl

/-- A node reaches as far as it stands itself, or as far as its subtrees one step below. -/
theorem Pending.max_reach_ofTrees (d : Nat) (ts : List Tree) :
    max d (Pending.reach (Pending.ofTrees (d + 1) ts)) = d + levelsOfAll ts := by
  induction ts with
  | nil => exact Nat.max_zero d
  | cons t ts ih =>
      have first : Pending.ofTrees (d + 1) (t :: ts) =
          (t, d + 1) :: Pending.ofTrees (d + 1) ts := rfl
      rw [first, reach, levelsOfAll, levels_eq]
      omega

/-- Visiting nodes never changes how deep the tree is found to be. -/
theorem depthFrom_eq (deepest : Nat) (pending : Pending) :
    depthFrom deepest pending = max deepest (Pending.reach pending) := by
  induction deepest, pending using depthFrom.induct with
  | case1 deepest => rw [depthFrom, Pending.reach, Nat.max_zero]
  | case2 deepest token children d rest ih =>
      rw [depthFrom, ih, Pending.reach_append, Nat.max_assoc, ← Nat.max_assoc d,
        Pending.max_reach_ofTrees]
      rfl

/-- The depth that the work list finds is the number of levels. -/
theorem depth_eq_levels (t : Tree) : t.depth = t.levels := by
  rw [depth, depthFrom_eq, Pending.reach, Pending.reach, levels_eq]
  omega

/-! ## Trees within the limit -/

/-- A tree has a text exactly if it is renderable and not deeper than the limit.  If it is
only deeper, the depth is the fault that is reported. -/
theorem exists_render_eq_ok_iff (config : RenderConfig) (t : Tree) :
    ((∃ out, t.render config = .ok out) ↔ t.isRenderable ∧ t.depth ≤ config.maxDepth) ∧
      (t.isRenderable → config.maxDepth < t.depth →
        t.render config = .error (.depthExceeded config.maxDepth)) := by
  rw [depth_eq_levels]
  refine ⟨⟨?_, ?_⟩, ?_⟩
  · rintro ⟨out, h⟩
    have renderable : t.isRenderable := isRenderable_of_write_eq_ok t h
    exact ⟨renderable, ((render_eq_ok_iff renderable).mp h).1⟩
  · rintro ⟨renderable, room⟩
    exact ⟨String.ofList t.spelling, (render_eq_ok_iff renderable).mpr ⟨room, rfl⟩⟩
  · intro renderable deep
    rw [render_of_isRenderable renderable, outcome_of_lt deep]

/-! ## Levels of comparisons -/

theorem levels_ofComparison (kind : TokenKind) (name : String) (operand : Tree) :
    (ofComparison kind name operand).levels = operand.levels + 1 := by
  have pos := levels_pos operand
  rw [ofComparison, levels, levelsOfAll, levels_ofIdentifier, levelsOfAll, levelsOfAll]
  omega

theorem levels_ofValues (texts : List (Option String)) :
    (ofValues texts).levels = if texts.isEmpty then 1 else 2 := levels_valuesNode none texts

end Tree

namespace Condition

/-! ## Conditions -/

mutual

/-- A condition has as many levels as its tree. -/
theorem levels_compile : (c : Condition) → c.compile.levels = c.height
  | and cs => by rw [compile, Tree.ofAnd, Tree.levels, levelsOfAll_compileAll cs, height]
  | or cs => by rw [compile, Tree.ofOr, Tree.levels, levelsOfAll_compileAll cs, height]
  | not c => by
      rw [compile, Tree.ofNot, Tree.levels, Tree.levelsOfAll, levels_compile c, Tree.levelsOfAll,
        Nat.max_zero, height]
  | time .. | integer .. | text .. => by
      rw [compile, compare, Tree.levels_ofComparison, Tree.levels_ofValue, height]
  | integerIn field literals | integerNotIn field literals => by
      rw [compile, compareAll, Tree.levels_ofComparison, Tree.levels_ofValues, List.isEmpty_map,
        height]
      split
      · rfl
      · rfl

theorem levelsOfAll_compileAll : (cs : List Condition) →
    Tree.levelsOfAll (compileAll cs) = heightOfAll cs
  | [] => rfl
  | c :: cs => by
      rw [compileAll, Tree.levelsOfAll, levels_compile c, levelsOfAll_compileAll cs, heightOfAll]

end

/-- A condition compiles to a tree as deep as the condition is high.  Its text is the same
under every limit that leaves room for it, and under all others the depth is the fault. -/
theorem render_compile_by_height (c : Condition) :
    c.compile.depth = c.height ∧ ∃ out, ∀ config : RenderConfig,
      c.compile.render config = if c.height ≤ config.maxDepth then .ok out
        else .error (.depthExceeded config.maxDepth) := by
  have levels : c.compile.levels = c.height := levels_compile c
  have renderable : c.compile.isRenderable := Tree.isRenderable_of_isQuery (isQuery_compile c)
  refine ⟨c.compile.depth_eq_levels.trans levels, String.ofList c.compile.spelling, ?_⟩
  intro config
  rw [Tree.render_of_isRenderable renderable, levels]
  by_cases room : c.height ≤ config.maxDepth
  · rw [if_pos room, Tree.outcome_of_le room, String.empty_append]
  · rw [if_neg room, Tree.outcome_of_lt (Nat.not_le.mp room)]

end Condition

end Metrology.Filter
