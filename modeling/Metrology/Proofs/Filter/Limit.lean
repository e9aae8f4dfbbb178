import Metrology.Proofs.Filter.Depth
import Metrology.Proofs.Filter.Runs

/-!
# What the limit does

Three facts about the writing of trees of any shape, also of those without a text.

*Raising the limit.*  A higher limit changes an outcome only if this was that the tree
is too deep (`render_of_le`).

*Cutting the tree.*  What stands deeper than one level below the limit has no part in
the outcome (`render_cut`).  So writing goes no deeper than that, however deep the tree
is.

*Moving the tree.*  A tree is written anywhere inside other trees and behind any text as
it is written on its own, under the limit that its place leaves to it (`write_eq_render`).

For each of them two runs are compared, and the last two need the comparison in both
directions.
-/

namespace Metrology.Filter

theorem Follows.eq_or_tooDeep {limit : Nat} {front : String} {x y : Except RenderError String}
    (h : Follows limit front front x y) : y = x ∨ x = .error (.depthExceeded limit) := by
  cases h with
  | tooDeep => exact .inr rfl
  | fault => exact .inl rfl
  | done behind =>
      obtain ⟨text, rfl, rfl⟩ := behind
      exact .inl rfl

/-- Runs that follow each other have the same outcome. -/
theorem Follows.eq_of_follows {limit : Nat} {front : String} {x y : Except RenderError String}
    (forth : Follows limit front front x y) (back : Follows limit front front y x) : y = x := by
  rcases forth.eq_or_tooDeep with same | deep
  · exact same
  · rcases back.eq_or_tooDeep with same | deep'
    · exact same.symm
    · rw [deep, deep']

/-- The outcome of a tree on its own, moved behind `out` and under another limit. -/
def moved (limit : Nat) (out : String) : Except RenderError String → Except RenderError String
  | .ok text => .ok (out ++ text)
  | .error (.depthExceeded _) => .error (.depthExceeded limit)
  | .error e => .error e

theorem Follows.eq_moved {limit limit' : Nat} {out : String} {x y : Except RenderError String}
    (forth : Follows limit' "" out x y) (back : Follows limit out "" y x) :
    y = moved limit out x := by
  cases forth with
  | tooDeep =>
      cases back with
      | tooDeep => rfl
      | fault about => cases about
  | @fault e about =>
      cases e with
      | depthExceeded => cases about
      | unsupportedToken | malformedNode => rfl
  | done behind =>
      obtain ⟨text, rfl, rfl⟩ := behind
      rw [String.empty_append]
      rfl

namespace Tree

theorem follows_render {config config' : RenderConfig} (h : config.maxDepth ≤ config'.maxDepth)
    {s t : Tree} (same : AgreeTo config.maxDepth s t) :
    Follows config.maxDepth "" "" (s.render config) (t.render config') := by
  have reach : config.maxDepth < 1 + config.maxDepth := by omega
  exact follows_write s (Nat.add_le_add_right h 1) reach same (behind_self "" "")

/-! ## Raising the limit -/

/-- Under a higher limit the outcome is the same, unless the tree was too deep before. -/
theorem render_of_le (config config' : RenderConfig) (h : config.maxDepth ≤ config'.maxDepth)
    (t : Tree) :
    t.render config' = t.render config ∨
      t.render config = .error (.depthExceeded config.maxDepth) := by
  have same : AgreeTo config.maxDepth t t := rfl
  exact (follows_render h same).eq_or_tooDeep

/-- The negation without a part is found under both limits.  The second part of the conjunction
has a fault that only the higher limit leaves room for. -/
theorem render_of_le_notOneOperand :
    let t := ofAnd [node ⟨.not, none⟩ [], ofNot (node ⟨.like, none⟩ [])]
    2 ≤ 9 ∧ t.render ⟨2⟩ = .error (.malformedNode ⟨.not, none⟩ .notOneOperand) ∧
      t.render ⟨9⟩ = .error (.malformedNode ⟨.not, none⟩ .notOneOperand) := by
  intro t
  have higher : 2 ≤ 9 := by decide
  have low : t.render ⟨2⟩ = .error (.malformedNode ⟨.not, none⟩ .notOneOperand) := rfl
  refine ⟨higher, low, ?_⟩
  rcases render_of_le ⟨2⟩ ⟨9⟩ higher t with same | deep
  · exact same.trans low
  · cases low.symm.trans deep

/-! ## Cutting the tree -/

theorem levelsOfAll_map_cut {levels : Nat}
    (h : ∀ t : Tree, (t.cut levels).levels = min t.levels (levels + 1)) (ts : List Tree) :
    levelsOfAll (ts.map (cut levels)) = min (levelsOfAll ts) (levels + 1) := by
  induction ts with
  | nil => simp [levelsOfAll]
  | cons t ts ih =>
      rw [List.map_cons, levelsOfAll, levelsOfAll, h, ih]
      omega

theorem levels_cut (levels : Nat) (t : Tree) :
    (t.cut levels).levels = min t.levels (levels + 1) := by
  induction levels generalizing t with
  | zero =>
      cases t with
      | node token children => simp [cut, Tree.levels, levelsOfAll]
  | succ levels ih =>
      rw [levels_eq, children_cut_succ, levelsOfAll_map_cut ih, levels_eq t]
      omega

theorem cut_cut (levels : Nat) (t : Tree) : (t.cut levels).cut levels = t.cut levels := by
  induction levels generalizing t with
  | zero =>
      cases t with
      | node token children => rfl
  | succ levels ih =>
      cases t with
      | node token children =>
          rw [cut, cut, List.map_map]
          congr 1
          exact List.map_congr_left fun child _ => ih child

theorem render_eq_of_agreeTo {config : RenderConfig} {s t : Tree}
    (same : AgreeTo config.maxDepth s t) : s.render config = t.render config := by
  have forth := follows_render (Nat.le_refl config.maxDepth) same
  have back := follows_render (Nat.le_refl config.maxDepth) same.symm
  exact back.eq_of_follows forth

/-- A tree is written like the tree that is cut one level below the limit.  So trees that differ
only further down have the same outcome. -/
theorem render_cut (config : RenderConfig) (t : Tree) :
    (t.cut config.maxDepth).render config = t.render config ∧
      (t.cut config.maxDepth).depth = min t.depth (config.maxDepth + 1) ∧
      ∀ s : Tree, s.cut config.maxDepth = t.cut config.maxDepth →
        s.render config = t.render config := by
  refine ⟨?_, ?_, ?_⟩
  · exact render_eq_of_agreeTo (cut_cut config.maxDepth t)
  · rw [depth_eq_levels, depth_eq_levels, levels_cut]
  · intro s same
    exact render_eq_of_agreeTo same

/-- The entry of the list is two levels below the limit.  Whether it is a value is not looked at. -/
theorem render_cut_entry :
    let tree (entry : Tree) :=
      ofNot (ofComparison .memberOf "Key" (node ⟨.valueList, none⟩ [entry]))
    (tree (ofValue none)).cut 2 = (tree (ofAnd [])).cut 2 ∧
      (tree (ofValue none)).render ⟨2⟩ = (tree (ofAnd [])).render ⟨2⟩ := by
  intro tree
  have same : (tree (ofValue none)).cut 2 = (tree (ofAnd [])).cut 2 := rfl
  exact ⟨same, (render_cut ⟨2⟩ (tree (ofAnd []))).2.2 (tree (ofValue none)) same⟩

/-! ## Moving the tree -/

theorem write_of_lt {limit depth : Nat} (h : limit < depth) (t : Tree) (out : String) :
    write limit t depth out = .error (.depthExceeded limit) := by
  cases t with
  | node token children =>
      have deep : checkDepth limit depth = .error (.depthExceeded limit) := if_pos h
      rw [write.eq_def]
      show (checkDepth limit depth >>= _) = _
      rw [deep]
      rfl

/-- At any depth and behind any text, a tree is written as on its own under the limit that is left.
It has the same text, which is put behind the other one, or it has the same fault. -/
theorem write_eq_render (limit : Nat) (t : Tree) (depth : Nat) (out : String) :
    t.write limit (depth + 1) out = moved limit out (t.render ⟨limit - depth⟩) := by
  rcases Nat.lt_or_ge limit depth with deeper | within
  · have none : limit - depth < 1 := by omega
    rw [render, write_of_lt none, write_of_lt (Nat.lt_succ_of_lt deeper)]
    rfl
  · have same : AgreeTo (limit - depth) t t := rfl
    have forth : Follows (limit - depth) "" out (t.render ⟨limit - depth⟩)
        (t.write limit (depth + 1) out) := by
      have reach : limit - depth < 1 + (limit - depth) := by omega
      exact follows_write t (by omega) reach same (behind_self "" out)
    have back : Follows limit out "" (t.write limit (depth + 1) out)
        (t.render ⟨limit - depth⟩) := by
      have room : limit + 1 ≤ limit - depth + (depth + 1) := by omega
      exact follows_write t room (by omega) same (behind_self out "")
    exact forth.eq_moved back

end Tree

end Metrology.Filter
