import Metrology.Proofs.Filter.Depth

/-!
# Walks

A walk through a tree is a loop over the nodes still to visit.  A round takes the last
of them, keeps the larger of its distance and the deepest one so far, and puts its
subtrees at the end, one step farther from the root.  The loop is over when no node is
left.

Two numbers carry the loop.  A round takes one node from the *weight*, the number of
nodes in and below those still to visit, however many subtrees it puts there
(`weight_of_next?`).  So a walk has one round for each node of its tree.  And a round
leaves the *reach*, the largest distance of a node that was visited or is still to come,
as it is (`reach_of_next?`).  So what the walk has found at the end is the reach of its
start, which is the depth of the tree.

The nodes come in another order here than in `depthFrom`, where the first of them is
taken.  The depth does not depend on it.
-/

namespace Metrology.Filter

namespace Tree

/-! ## Nodes still to visit -/

theorem size_eq (t : Tree) : t.size = sizeAll t.children + 1 := by
  cases t with
  | node token children => rfl

theorem size_pos (t : Tree) : 0 < t.size := by
  rw [size_eq]
  exact Nat.succ_pos _

theorem Pending.weight_eq_zero_iff {p : Pending} : Pending.weight p = 0 ↔ p = [] := by
  cases p with
  | nil => exact iff_of_true rfl rfl
  | cons entry p =>
      have pos := entry.1.size_pos
      have more : Pending.weight (entry :: p) ≠ 0 := by
        rw [weight]
        omega
      exact iff_of_false more (List.cons_ne_nil entry p)

/-- An entry of the list reaches at least its own depth. -/
theorem Pending.le_reach_of_mem {entry : Tree × Nat} {p : Pending} (mem : entry ∈ p) :
    entry.2 ≤ Pending.reach p := by
  induction p with
  | nil => cases mem
  | cons first p ih =>
      rw [reach]
      rcases List.mem_cons.mp mem with rfl | mem
      · exact Nat.le_trans (Nat.le_add_right ..) (Nat.le_max_left ..)
      · exact Nat.le_trans (ih mem) (Nat.le_max_right ..)

/-! ## Rounds -/

/-- Where a walk through a tree stands. -/
structure Walk where
  /-- The largest distance of the nodes visited so far. -/
  deepest : Nat
  /-- The nodes still to visit.  The last one is next. -/
  pending : Pending

namespace Walk

/-- No node is visited, and the root is next. -/
def start (t : Tree) : Walk := ⟨0, [(t, 1)]⟩

/-- Visits the next node, if one is left. -/
def next? (w : Walk) : Option Walk :=
  w.pending.getLast?.map fun (t, d) =>
    ⟨max w.deepest d, w.pending.dropLast ++ Pending.ofTrees (d + 1) t.children⟩

/-- What becomes of a walk in the given number of rounds, if it has as many. -/
def after : (rounds : Nat) → Walk → Option Walk
  | 0, w => some w
  | rounds + 1, w => w.next?.bind (after rounds)

/-- The number of nodes in and below those still to visit. -/
def weight (w : Walk) : Nat := Pending.weight w.pending

/-- The largest distance of a node that was visited or is still to come. -/
def reach (w : Walk) : Nat := max w.deepest (Pending.reach w.pending)

/-! ## What a round does -/

/-- A round takes the last entry off and puts its children there, one level deeper. -/
theorem exists_of_next? {w w' : Walk} (h : w.next? = some w') : ∃ rest t d,
    w.pending = rest ++ [(t, d)] ∧
      w' = ⟨max w.deepest d, rest ++ Pending.ofTrees (d + 1) t.children⟩ := by
  obtain ⟨⟨t, d⟩, last, rfl⟩ := Option.map_eq_some_iff.mp h
  obtain ⟨rest, pending⟩ := List.getLast?_eq_some_iff.mp last
  refine ⟨rest, t, d, pending, ?_⟩
  rw [pending, List.dropLast_concat]

/-- A round pays one of the weight. -/
theorem weight_of_next? {w w' : Walk} (h : w.next? = some w') : w'.weight + 1 = w.weight := by
  obtain ⟨rest, t, d, pending, rfl⟩ := exists_of_next? h
  -- The subtrees that come have all nodes of the tree that goes but its root.
  rw [weight, weight, pending, Pending.weight_append, Pending.weight_append,
    Pending.weight_ofTrees, Pending.weight, Pending.weight, size_eq]
  omega

/-- A round leaves the reach as it is. -/
theorem reach_of_next? {w w' : Walk} (h : w.next? = some w') : w'.reach = w.reach := by
  obtain ⟨rest, t, d, pending, rfl⟩ := exists_of_next? h
  -- What is lost with the tree is found again in its distance and in its subtrees.
  have here := Pending.max_reach_ofTrees d t.children
  have last : Pending.reach [(t, d)] = d + levelsOfAll t.children := Nat.max_zero _
  rw [reach, reach, pending, Pending.reach_append, Pending.reach_append, last]
  dsimp only
  omega

/-- As long as there is weight there is a next round. -/
theorem exists_next? {w : Walk} (h : 0 < w.weight) : ∃ w', w.next? = some w' := by
  have left : w.pending ≠ [] := fun empty =>
    Nat.ne_of_gt h (Pending.weight_eq_zero_iff.mpr empty)
  rw [next?, List.getLast?_eq_some_getLast left]
  exact ⟨_, rfl⟩

/-! ## What a run of rounds does -/

/-- Rounds pay one of the weight each. -/
theorem weight_of_after {rounds : Nat} {w w' : Walk} (h : w.after rounds = some w') :
    w'.weight + rounds = w.weight := by
  induction rounds generalizing w with
  | zero =>
      cases h
      rfl
  | succ rounds ih =>
      obtain ⟨between, first, rest⟩ := Option.bind_eq_some_iff.mp h
      rw [← weight_of_next? first, ← ih rest, Nat.add_assoc]

/-- Rounds leave the reach as it is. -/
theorem reach_of_after {rounds : Nat} {w w' : Walk} (h : w.after rounds = some w') :
    w'.reach = w.reach := by
  induction rounds generalizing w with
  | zero =>
      cases h
      rfl
  | succ rounds ih =>
      obtain ⟨between, first, rest⟩ := Option.bind_eq_some_iff.mp h
      exact (ih rest).trans (reach_of_next? first)

/-- A walk does not end before its weight is used up. -/
theorem exists_after {rounds : Nat} {w : Walk} (h : rounds ≤ w.weight) :
    ∃ w', w.after rounds = some w' := by
  induction rounds generalizing w with
  | zero => exact ⟨w, rfl⟩
  | succ rounds ih =>
      obtain ⟨between, first⟩ := exists_next? (Nat.zero_lt_of_lt h)
      have room : rounds ≤ between.weight := by
        have used := weight_of_next? first
        omega
      obtain ⟨w', rest⟩ := ih room
      exact ⟨w', Option.bind_eq_some_iff.mpr ⟨between, first, rest⟩⟩

/-- When its weight is used up, a walk has found its reach and no node is left. -/
theorem after_weight (w : Walk) : w.after w.weight = some ⟨w.reach, []⟩ := by
  obtain ⟨⟨deepest, pending⟩, run⟩ := exists_after (Nat.le_refl w.weight)
  have used := weight_of_after run
  have empty : pending = [] := Pending.weight_eq_zero_iff.mp (Nat.add_eq_right.mp used)
  subst empty
  have found : deepest = w.reach := (Nat.max_zero deepest).symm.trans (reach_of_after run)
  rw [run, found]

theorem weight_start (t : Tree) : (start t).weight = t.size := rfl

theorem reach_start (t : Tree) : (start t).reach = t.depth := by
  rw [depth, depthFrom_eq]
  rfl

end Walk

/-! ## Depth and size -/

mutual

theorem levels_le_size : (t : Tree) → t.levels ≤ t.size
  | node _ children => Nat.succ_le_succ (levelsOfAll_le_sizeAll children)

theorem levelsOfAll_le_sizeAll : (ts : List Tree) → levelsOfAll ts ≤ sizeAll ts
  | [] => Nat.le_refl 0
  | t :: ts => by
      have first := levels_le_size t
      have rest := levelsOfAll_le_sizeAll ts
      rw [levelsOfAll, sizeAll]
      omega

end

/-- The largest depth of trees in a list, if there are any. -/
theorem max?_map_depth (ts : List Tree) :
    (ts.map depth).max? = if ts.isEmpty then none else some (levelsOfAll ts) := by
  induction ts with
  | nil => rfl
  | cons t ts ih =>
      rw [List.map_cons, List.max?_cons, ih, depth_eq_levels]
      cases ts with
      | nil => exact congrArg some (Nat.max_zero t.levels).symm
      | cons s ts => rfl

/-- A walk has one round for each node of the tree.  Then no node is left and the depth is found.
On its way it meets no distance above the number of nodes.  The depth is 1 where there are no
subtrees, and otherwise it is one more than the largest depth of a subtree. -/
theorem depth_found_by_walk (t : Tree) :
    (Walk.start t).after t.size = some ⟨t.depth, []⟩ ∧
      (∀ rounds w, (Walk.start t).after rounds = some w →
        w.deepest ≤ t.size ∧ ∀ entry ∈ w.pending, entry.2 ≤ t.size) ∧
      t.depth = match (t.children.map depth).max? with
        | none => 1
        | some deepest => 1 + deepest := by
  refine ⟨?_, ?_, ?_⟩
  · have run := Walk.after_weight (.start t)
    rwa [Walk.weight_start, Walk.reach_start] at run
  · intro rounds w run
    have within : w.reach ≤ t.size := by
      rw [Walk.reach_of_after run, Walk.reach_start, depth_eq_levels]
      exact levels_le_size t
    refine ⟨Nat.le_trans (Nat.le_max_left ..) within, ?_⟩
    intro entry mem
    have below : entry.2 ≤ w.reach :=
      Nat.le_trans (Pending.le_reach_of_mem mem) (Nat.le_max_right ..)
    exact Nat.le_trans below within
  · rw [max?_map_depth, depth_eq_levels, levels_eq]
    cases t.children with
    | nil => rfl
    | cons first rest => exact Nat.add_comm ..

/-- Behind the comparison comes its list of literals, which is the last of its subtrees.  Then the
name of the field is still to visit, and the entry of the list one step below it. -/
theorem depth_found_by_walk_list :
    let t := ofComparison .memberOf "Key" (ofValues [some "1"])
    (Walk.start t).after 2 = some ⟨2, [(ofIdentifier "Key", 2), (ofValue (some "1"), 3)]⟩ ∧
      3 ≤ t.size ∧ t.depth = 3 := by
  intro t
  have halfway : (Walk.start t).after 2 =
      some ⟨2, [(ofIdentifier "Key", 2), (ofValue (some "1"), 3)]⟩ := rfl
  obtain ⟨run, bounds, -⟩ := depth_found_by_walk t
  have entry := (bounds 2 _ halfway).2 (ofValue (some "1"), 3) (List.mem_cons_of_mem _ (.head []))
  have done : (Walk.start t).after t.size = some ⟨3, []⟩ := rfl
  have same := Option.some.inj (run.symm.trans done)
  exact ⟨halfway, entry, congrArg Walk.deepest same⟩

end Tree

end Metrology.Filter
