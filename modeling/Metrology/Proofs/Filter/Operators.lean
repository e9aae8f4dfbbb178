import Metrology.Filter.Expression
import Metrology.Proofs.Filter.Depth
import Metrology.Proofs.Filter.Unambiguous

/-!
# Operators

`c &&& d` looks at `c` and never at `d`.  If `c` is a conjunction, `d` is added at the
end of its list, and otherwise both make a new list.  With `c ||| d` it is the same for
disjunctions.  In both cases the left side gives its *parts* to the list, which are its
own list or the left side alone (`both_eq`, `either_eq`).

The parts mean together what the left side means, and so the operators mean what they
say (`holds_both`, `holds_either`).  A condition means the same as its tree
(`holds_compile`), and the rest is an induction on the expression.

And chains are flat.  The first operator makes a list of the parts, and all the others
add to it (`foldl_join`).  A chain takes one level above its operands, however long it
is.
-/

namespace Metrology.Filter

namespace Condition

/-! ## Conditions and their trees -/

section Compile

variable (v : Valuation)

/-- The tree of a comparison holds as the valuation says. -/
theorem holds_compare (field : String) (comparison : Comparison) (literal : Option String) :
    (compare field comparison literal).holds v =
      v ⟨comparison.kind, some field, .one literal⟩ := by
  cases comparison with
  | _ => exact Tree.holds_ofComparison rfl v field (.ofValue literal)

/-- So does that of a comparison with a list. -/
theorem holds_compareAll {kind : TokenKind} {symbol : String} (h : kind.symbol? = some symbol)
    (field : String) (literals : List Int64) :
    (compareAll kind field literals).holds v =
      v ⟨kind, some field, .many (literals.map fun n => some (integerText n))⟩ := by
  rw [compareAll, Tree.holds_ofComparison h]
  exact congrArg (fun operand => v ⟨kind, some field, operand⟩) (Tree.asOperand_valuesNode none _)

mutual

/-- A condition means the same as its tree. -/
theorem holds_compile : (c : Condition) → c.compile.holds v = c.holds v
  | and cs => by
      rw [holds, ← allHold_compileAll cs]
      rfl
  | or cs => by
      rw [holds, ← someHolds_compileAll cs]
      rfl
  | not c => by rw [compile, Tree.holds_ofNot, holds_compile c, holds]
  | time .. | integer .. | text .. => by rw [compile, holds_compare, holds]
  | integerIn .. | integerNotIn .. => by
      rw [compile, holds_compareAll v rfl, holds]

theorem allHold_compileAll : (cs : List Condition) →
    Tree.allHold v (compileAll cs) = allHold v cs
  | [] => rfl
  | c :: cs => by
      rw [compileAll, Tree.allHold, holds_compile c, allHold_compileAll cs, allHold]

theorem someHolds_compileAll : (cs : List Condition) →
    Tree.someHolds v (compileAll cs) = someHolds v cs
  | [] => rfl
  | c :: cs => by
      rw [compileAll, Tree.someHolds, holds_compile c, someHolds_compileAll cs, someHolds]

end

/-! ## Joining -/

theorem allHold_append (cs ds : List Condition) :
    allHold v (cs ++ ds) = (allHold v cs && allHold v ds) := by
  induction cs with
  | nil => rfl
  | cons c cs ih => rw [List.cons_append, allHold, ih, allHold, Bool.and_assoc]

theorem someHolds_append (cs ds : List Condition) :
    someHolds v (cs ++ ds) = (someHolds v cs || someHolds v ds) := by
  induction cs with
  | nil => rfl
  | cons c cs ih => rw [List.cons_append, someHolds, ih, someHolds, Bool.or_assoc]

/-- What a condition gives to a conjunction that `&&&` makes. -/
def conjuncts : Condition → List Condition
  | and cs => cs
  | c => [c]

/-- What a condition gives to a disjunction that `|||` makes. -/
def disjuncts : Condition → List Condition
  | or cs => cs
  | c => [c]

/-- A conjunction of two conditions goes on with the parts of the left one. -/
theorem both_eq (c d : Condition) : c &&& d = and (c.conjuncts ++ [d]) := by
  cases c with
  | _ => rfl

/-- So does a disjunction. -/
theorem either_eq (c d : Condition) : c ||| d = or (c.disjuncts ++ [d]) := by
  cases c with
  | _ => rfl

theorem allHold_conjuncts (c : Condition) : allHold v c.conjuncts = c.holds v := by
  cases c with
  | and cs => rw [conjuncts, holds]
  | _ => simp [conjuncts, allHold]

theorem someHolds_disjuncts (c : Condition) : someHolds v c.disjuncts = c.holds v := by
  cases c with
  | or cs => rw [disjuncts, holds]
  | _ => simp [disjuncts, someHolds]

/-- Both conditions hold exactly if each does. -/
theorem holds_both (c d : Condition) : (c &&& d).holds v = (c.holds v && d.holds v) := by
  rw [both_eq, holds, allHold_append, allHold_conjuncts]
  simp [allHold]

/-- One of two conditions holds exactly if the left one or the right one does. -/
theorem holds_either (c d : Condition) : (c ||| d).holds v = (c.holds v || d.holds v) := by
  rw [either_eq, holds, someHolds_append, someHolds_disjuncts]
  simp [someHolds]

end Compile

/-! ## Chains -/

theorem conjuncts_of_ne_and {c : Condition} (other : ∀ cs, c ≠ and cs) : c.conjuncts = [c] := by
  cases c with
  | and cs => exact absurd rfl (other cs)
  | _ => rfl

theorem disjuncts_of_ne_or {c : Condition} (other : ∀ cs, c ≠ or cs) : c.disjuncts = [c] := by
  cases c with
  | or cs => exact absurd rfl (other cs)
  | _ => rfl

/-- An operator that adds its right side to the parts of its left side makes one list of a
chain. -/
theorem foldl_join {join : Condition → Condition → Condition}
    {junction : List Condition → Condition} {parts : Condition → List Condition}
    (join_eq : ∀ c d, join c d = junction (parts c ++ [d]))
    (parts_junction : ∀ cs, parts (junction cs) = cs) (c : Condition) {rs : List Condition}
    (nonempty : rs ≠ []) : rs.foldl join c = junction (parts c ++ rs) := by
  induction rs generalizing c with
  | nil => exact absurd rfl nonempty
  | cons r rs ih =>
      rw [List.foldl_cons]
      cases rs with
      | nil => exact join_eq c r
      | cons s rs =>
          rw [ih (join c r) (List.cons_ne_nil s rs), join_eq, parts_junction, List.append_assoc]
          rfl

/-- The largest depth of the trees of conditions. -/
def deepest : List Condition → Nat
  | [] => 0
  | c :: cs => max c.compile.depth (deepest cs)

theorem levelsOfAll_compileAll_eq_deepest (cs : List Condition) :
    Tree.levelsOfAll (compileAll cs) = deepest cs := by
  induction cs with
  | nil => rfl
  | cons c cs ih => rw [compileAll, Tree.levelsOfAll, ih, deepest, Tree.depth_eq_levels]

/-- A junction is one level deeper than the deepest of its parts. -/
theorem depth_node_compileAll (token : Token) (cs : List Condition) :
    (Tree.node token (compileAll cs)).depth = deepest cs + 1 := by
  rw [Tree.depth_eq_levels, Tree.levels, levelsOfAll_compileAll_eq_deepest]

end Condition

/-! ## Expressions -/

namespace Expression

section Value

variable (v : Valuation)

mutual

/-- The condition of an expression has the value of the expression. -/
theorem holds_toCondition : (e : Expression) → e.toCondition.holds v = e.value v
  | condition _ => rfl
  | both left right => by
      rw [toCondition, Condition.holds_both, holds_toCondition left, holds_toCondition right, value]
  | either left right => by
      rw [toCondition, Condition.holds_either, holds_toCondition left, holds_toCondition right,
        value]
  | complement e | not e => by
      rw [value, ← holds_toCondition e]
      rfl
  | and es => by rw [toCondition, Condition.holds, allHold_toConditions es, value]
  | or es => by rw [toCondition, Condition.holds, someHolds_toConditions es, value]

theorem allHold_toConditions : (es : List Expression) →
    Condition.allHold v (toConditions es) = allTrue v es
  | [] => rfl
  | e :: es => by
      rw [toConditions, Condition.allHold, holds_toCondition e, allHold_toConditions es, allTrue]

theorem someHolds_toConditions : (es : List Expression) →
    Condition.someHolds v (toConditions es) = someTrue v es
  | [] => rfl
  | e :: es => by
      rw [toConditions, Condition.someHolds, holds_toCondition e, someHolds_toConditions es,
        someTrue]

end

end Value

/-- The tree of an expression is true exactly where the expression is.  And a chain of one operator
makes one list, if its first operand is no list of that operator, so its tree is one level deeper
than its deepest operand. -/
theorem holds_compile_and_flat_chains :
    (∀ (v : Valuation) (e : Expression), e.toCondition.compile.holds v = e.value v) ∧
      ∀ (c : Condition) (rs : List Condition), rs ≠ [] →
        ((∀ cs, c ≠ .and cs) → rs.foldl (· &&& ·) c = .and (c :: rs) ∧
          (rs.foldl (· &&& ·) c).compile.depth = Condition.deepest (c :: rs) + 1) ∧
        ((∀ cs, c ≠ .or cs) → rs.foldl (· ||| ·) c = .or (c :: rs) ∧
          (rs.foldl (· ||| ·) c).compile.depth = Condition.deepest (c :: rs) + 1) := by
  refine ⟨?_, ?_⟩
  · intro v e
    rw [Condition.holds_compile, holds_toCondition]
  · intro c rs nonempty
    refine ⟨?_, ?_⟩
    · intro other
      have flat : rs.foldl (· &&& ·) c = .and (c :: rs) := by
        rw [Condition.foldl_join Condition.both_eq (fun _ => rfl) c nonempty,
          Condition.conjuncts_of_ne_and other]
        rfl
      rw [flat]
      exact ⟨rfl, Condition.depth_node_compileAll ⟨.and, none⟩ (c :: rs)⟩
    · intro other
      have flat : rs.foldl (· ||| ·) c = .or (c :: rs) := by
        rw [Condition.foldl_join Condition.either_eq (fun _ => rfl) c nonempty,
          Condition.disjuncts_of_ne_or other]
        rfl
      rw [flat]
      exact ⟨rfl, Condition.depth_node_compileAll ⟨.or, none⟩ (c :: rs)⟩

/-- Junctions behind a negation stay as they are, also those of the same kind and the empty ones. -/
theorem holds_compile_and_flat_chains_negation :
    let c : Condition := .not (.and [])
    let rs : List Condition := [.and [.or []], .or [], .and []]
    rs ≠ [] ∧ (∀ cs, c ≠ .and cs) ∧ (∀ cs, c ≠ .or cs) ∧
      rs.foldl (· &&& ·) c = .and [.not (.and []), .and [.or []], .or [], .and []] ∧
      rs.foldl (· ||| ·) c = .or [.not (.and []), .and [.or []], .or [], .and []] ∧
      (rs.foldl (· &&& ·) c).compile.depth = 3 := by
  intro c rs
  have nonempty : rs ≠ [] := List.cons_ne_nil _ _
  have notAnd : ∀ cs, c ≠ .and cs := nofun
  have notOr : ∀ cs, c ≠ .or cs := nofun
  obtain ⟨conjunction, disjunction⟩ := holds_compile_and_flat_chains.2 c rs nonempty
  refine ⟨nonempty, notAnd, notOr, (conjunction notAnd).1, (disjunction notOr).1, ?_⟩
  rw [(conjunction notAnd).2, ← Condition.levelsOfAll_compileAll_eq_deepest]
  rfl

end Expression

end Metrology.Filter
