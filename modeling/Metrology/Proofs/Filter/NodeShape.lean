import Metrology.Proofs.Filter.Spelling

/-!
# Shapes of trees with a text

A tree may be put together from any parts, and writing is the only check it meets.
`isRenderable_of_write_eq_ok` says what it means to pass.  The proof goes along with
the writing.  Each writer tells the shape of its own node, and no subtree is left
out, because one that fails ends the writing of the whole tree.

So the nodes of a tree with a text have the shapes of the table of filter trees, but
for one gap.  The parts of junctions and negations are written without a look at
their kinds.  They can be anything that has a text, and so a literal can stand where
a predicate belongs.
-/

namespace Metrology.Filter

namespace Tree

/-! ## Nodes and their shapes -/

/-- A tree is a node of itself and of every tree around it. -/
inductive IsNodeOf (s : Tree) : Tree → Prop where
  | root : IsNodeOf s s
  | inside {token : Token} {children : List Tree} {child : Tree} :
    child ∈ children → IsNodeOf s child → IsNodeOf s (node token children)

/-- Whether a tree is a predicate, by its root. -/
def isPredicate (t : Tree) : Bool := t.kind.isLogical || t.kind.isComparison

/-- The shape the table of filter trees asks for.  `admits` tells which trees can be
parts of junctions and negations. -/
def HasShape (admits : Tree → Bool) : Tree → Prop
  | node token children =>
    match token.kind with
    | .value | .identifier => children = []
    | .valueList => ∀ entry ∈ children, entry.isValueLeaf
    | .and | .or => ∀ part ∈ children, admits part
    | .not => ∃ part, children = [part] ∧ admits part
    | operator => ∃ field operand, children = [field, operand] ∧
        field.kind = .identifier ∧ operand.kind = operator.operandKind

/-- Tables that admit different parts ask for the same shapes otherwise. -/
theorem HasShape.of_parts {admits admits' : Tree → Bool} {t : Tree} (h : t.HasShape admits)
    (parts : t.kind.isLogical → ∀ part ∈ t.children, admits' part) : t.HasShape admits' := by
  obtain ⟨⟨kind, text⟩, children⟩ := t
  cases kind with
  | and | or => exact parts rfl
  | not =>
      obtain ⟨part, rfl, -⟩ := h
      exact ⟨part, rfl, parts rfl part (List.mem_singleton.mpr rfl)⟩
  | _ => exact h

theorem HasShape.parts {admits : Tree → Bool} {t part : Tree} (h : t.HasShape admits)
    (logical : t.kind.isLogical) (mem : part ∈ t.children) : admits part := by
  obtain ⟨⟨kind, text⟩, children⟩ := t
  cases kind with
  | and | or => exact h part mem
  | not =>
      obtain ⟨part', rfl, admitted⟩ := h
      rw [List.mem_singleton.mp mem]
      exact admitted
  | _ => cases logical

/-! ## What each writer has seen -/

section Writers

variable {limit depth : Nat} {t : Tree} {out out' : String}

/-- A computation in two steps succeeds if both do. -/
theorem eq_ok_of_bind_eq_ok {α β : Type} {x : Except RenderError α} {f : α → Except RenderError β}
    {b : β} (h : (x >>= f) = .ok b) : ∃ a, x = .ok a ∧ f a = .ok b := by
  cases x with
  | error e => cases h
  | ok a => exact ⟨a, rfl, h⟩

theorem isEmpty_of_checkLeaf_eq_ok {u : Unit} (h : checkLeaf t = .ok u) :
    t.children.isEmpty := by
  rw [checkLeaf] at h
  split at h
  next leaf => exact leaf
  next => cases h

/-- What is written as a value is a value leaf. -/
theorem isValueLeaf_of_writeValue_eq_ok (kind : t.kind = .value)
    (h : writeValue t out = .ok out') : t.isValueLeaf := by
  obtain ⟨_, leaf, -⟩ := eq_ok_of_bind_eq_ok h
  simp [isValueLeaf, kind, isEmpty_of_checkLeaf_eq_ok leaf]

/-- What is written as a name is a named leaf. -/
theorem isNamedLeaf_of_writeIdentifier_eq_ok (kind : t.kind = .identifier)
    (h : writeIdentifier t out = .ok out') : t.isNamedLeaf := by
  obtain ⟨_, leaf, h⟩ := eq_ok_of_bind_eq_ok h
  have named : t.token.text.any (!·.isEmpty) := by
    split at h
    next name text =>
      split at h
      next => cases h
      next nonempty => simpa [text] using nonempty
    next => cases h
  simp [isNamedLeaf, kind, isEmpty_of_checkLeaf_eq_ok leaf, named]

theorem all_isValueLeaf_of_writeEntries_eq_ok {list : Token} :
    ∀ {entries : List Tree} {before out : String},
      writeEntries list before entries out = .ok out' → entries.all isValueLeaf
  | [], _, _, _ => rfl
  | entry :: entries, before, out, h => by
      rw [writeEntries] at h
      split at h
      next kind =>
        obtain ⟨_, first, rest⟩ := eq_ok_of_bind_eq_ok h
        rw [List.all_cons, isValueLeaf_of_writeValue_eq_ok kind first,
          all_isValueLeaf_of_writeEntries_eq_ok rest]
        rfl
      next => cases h

/-- What is written as a list of values is a list of leaves. -/
theorem isListOfLeaves_of_writeValueList_eq_ok (kind : t.kind = .valueList)
    (h : writeValueList limit t depth out = .ok out') : t.isListOfLeaves := by
  have entries : ∃ out out', writeEntries t.token "" t.children out = .ok out' := by
    rw [writeValueList] at h
    split at h
    next =>
      obtain ⟨_, entries, -⟩ := eq_ok_of_bind_eq_ok h
      exact ⟨_, _, entries⟩
    next =>
      obtain ⟨_, -, h⟩ := eq_ok_of_bind_eq_ok h
      obtain ⟨_, entries, -⟩ := eq_ok_of_bind_eq_ok h
      exact ⟨_, _, entries⟩
  obtain ⟨_, _, entries⟩ := entries
  simp [isListOfLeaves, kind, all_isValueLeaf_of_writeEntries_eq_ok entries]

/-- A comparison that is written has a named field and the operand it needs. -/
theorem operands_of_writeComparison_eq_ok {operator : Token} {symbol : String}
    {operands : List Tree}
    (h : writeComparison limit operator symbol operands depth out = .ok out') :
    ∃ field operand, operands = [field, operand] ∧ field.isNamedLeaf ∧
      operand.isOperandOf operator.kind := by
  match operands, h with
  | [], h | [_], h | _ :: _ :: _ :: _, h => cases h
  | [field, operand], h =>
      rw [writeComparison] at h
      split at h
      next => cases h
      next identifier =>
      split at h
      next => cases h
      next kind =>
      obtain ⟨_, -, h⟩ := eq_ok_of_bind_eq_ok h
      obtain ⟨_, name, h⟩ := eq_ok_of_bind_eq_ok h
      have named := isNamedLeaf_of_writeIdentifier_eq_ok (Decidable.not_not.mp identifier) name
      have kind := Decidable.not_not.mp kind
      refine ⟨field, operand, rfl, named, ?_⟩
      rw [isOperandOf]
      split at h
      next list =>
        rw [if_pos (kind ▸ list)]
        exact isListOfLeaves_of_writeValueList_eq_ok list h
      next one =>
        have one := kind ▸ one
        rw [if_neg one]
        exact isValueLeaf_of_writeValue_eq_ok (kind.trans (operandKind_of_ne one)) h

end Writers

/-! ## Trees -/

section Trees

variable {limit : Nat}

mutual

/-- A tree that is written is renderable. -/
theorem isRenderable_of_write_eq_ok (t : Tree) {depth : Nat} {out out' : String}
    (h : write limit t depth out = .ok out') : t.isRenderable := by
  obtain ⟨⟨kind, text⟩, children⟩ := t
  rw [write.eq_def] at h
  obtain ⟨_, -, h⟩ := eq_ok_of_bind_eq_ok h
  cases kind with
  | value => exact isRenderable_value_iff.mpr (isValueLeaf_of_writeValue_eq_ok rfl h)
  | valueList => exact isRenderable_valueList_iff.mpr (isListOfLeaves_of_writeValueList_eq_ok rfl h)
  | identifier => exact isRenderable_identifier_iff.mpr (isNamedLeaf_of_writeIdentifier_eq_ok rfl h)
  | and | or =>
      refine (isRenderable_junction_iff rfl).mpr ?_
      cases children with
      | nil => rfl
      | cons child rest =>
          obtain ⟨_, first, h⟩ := eq_ok_of_bind_eq_ok h
          obtain ⟨_, others, -⟩ := eq_ok_of_bind_eq_ok h
          rw [areRenderable, isRenderable_of_write_eq_ok child first,
            areRenderable_of_writeRest_eq_ok rest others]
          rfl
  | not =>
      match children, h with
      | [], h | _ :: _ :: _, h => cases h
      | [child], h =>
          have part : ∃ out out', write limit child (depth + 1) out = .ok out' := by
            simp only at h
            split at h
            next => exact ⟨_, _, h⟩
            next =>
              obtain ⟨_, part, -⟩ := eq_ok_of_bind_eq_ok h
              exact ⟨_, _, part⟩
          obtain ⟨_, _, part⟩ := part
          exact isRenderable_not_iff.mpr ⟨child, rfl, isRenderable_of_write_eq_ok child part⟩
  | like => cases h
  | _ => exact (isRenderable_comparison_iff rfl).mpr (operands_of_writeComparison_eq_ok h)

/-- Trees that are written one after the other are renderable. -/
theorem areRenderable_of_writeRest_eq_ok {separator : String} (ts : List Tree) {depth : Nat}
    {out out' : String} (h : writeRest limit separator ts depth out = .ok out') :
    areRenderable ts := by
  cases ts with
  | nil => rfl
  | cons t ts =>
      rw [writeRest] at h
      obtain ⟨_, first, others⟩ := eq_ok_of_bind_eq_ok h
      rw [areRenderable, isRenderable_of_write_eq_ok t first,
        areRenderable_of_writeRest_eq_ok ts others]
      rfl

end

end Trees

/-! ## All nodes -/

theorem isRenderable_ofValue (text : Option String) : (ofValue text).isRenderable :=
  isRenderable_value_iff.mpr rfl

/-- The parts of a junction or a negation that is renderable are so too. -/
theorem hasShape_of_isRenderable {t : Tree} (h : t.isRenderable) : t.HasShape isRenderable := by
  obtain ⟨⟨kind, text⟩, children⟩ := t
  cases kind with
  | value =>
      obtain ⟨_, eq⟩ := isValueLeaf_iff.mp (isRenderable_value_iff.mp h)
      cases eq
      exact rfl
  | valueList =>
      have entries := isRenderable_valueList_iff.mp h
      exact List.all_eq_true.mp (Bool.and_eq_true_iff.mp entries).2
  | identifier =>
      obtain ⟨_, -, eq⟩ := isNamedLeaf_iff.mp (isRenderable_identifier_iff.mp h)
      cases eq
      exact rfl
  | and | or => exact areRenderable_iff.mp ((isRenderable_junction_iff rfl).mp h)
  | not => exact isRenderable_not_iff.mp h
  | like => exact absurd h Bool.false_ne_true
  | _ =>
      obtain ⟨field, operand, rfl, named, shape⟩ := (isRenderable_comparison_iff rfl).mp h
      obtain ⟨name, -, rfl⟩ := isNamedLeaf_iff.mp named
      exact ⟨ofIdentifier name, operand, rfl, rfl, kind_of_isOperandOf shape⟩

theorem isRenderable_of_isOperandOf {operator : TokenKind} {t : Tree} (h : t.isOperandOf operator) :
    t.isRenderable := by
  rw [isOperandOf_iff] at h
  split at h
  next =>
    obtain ⟨text, texts, rfl⟩ := h
    exact isRenderable_valueList_iff.mpr (isListOfLeaves_iff.mpr ⟨text, texts, rfl⟩)
  next =>
    obtain ⟨text, rfl⟩ := h
    exact isRenderable_ofValue text

theorem isRenderable_of_isNamedLeaf {t : Tree} (h : t.isNamedLeaf) : t.isRenderable := by
  obtain ⟨name, named, rfl⟩ := isNamedLeaf_iff.mp h
  exact isRenderable_identifier_iff.mpr h

/-- The children of a renderable node are renderable. -/
theorem isRenderable_of_mem_children {token : Token} {children : List Tree} {child : Tree}
    (h : (node token children).isRenderable) (mem : child ∈ children) : child.isRenderable := by
  obtain ⟨kind, text⟩ := token
  have shape := hasShape_of_isRenderable h
  cases kind with
  | value | identifier =>
      cases (show children = [] from shape)
      cases mem
  | valueList =>
      obtain ⟨text, rfl⟩ := isValueLeaf_iff.mp (shape child mem)
      exact isRenderable_ofValue text
  | and | or | not => exact HasShape.parts shape rfl mem
  | like => exact absurd h Bool.false_ne_true
  | _ =>
      obtain ⟨field, operand, rfl, named, shape⟩ := (isRenderable_comparison_iff rfl).mp h
      cases mem with
      | head => exact isRenderable_of_isNamedLeaf named
      | tail _ mem =>
          rw [List.mem_singleton.mp mem]
          exact isRenderable_of_isOperandOf shape

theorem isRenderable_of_isNodeOf {s t : Tree} (node : s.IsNodeOf t) (h : t.isRenderable) :
    s.isRenderable := by
  induction node with
  | root => exact h
  | inside mem _ ih => exact ih (isRenderable_of_mem_children h mem)

/-- All nodes of a tree with a text have the shape of the table, but that any renderable
tree can be a part of a junction or of a negation.  So the table holds throughout
exactly if all these parts happen to be predicates. -/
theorem hasShape_of_render_eq_ok {config : RenderConfig} {t : Tree} {out : String}
    (h : t.render config = .ok out) :
    (∀ s, IsNodeOf s t → s.HasShape isRenderable) ∧
      ((∀ s, IsNodeOf s t → s.HasShape isPredicate) ↔
        ∀ s, IsNodeOf s t → s.kind.isLogical → ∀ part ∈ s.children, part.isPredicate) := by
  have shapes : ∀ s, IsNodeOf s t → s.HasShape isRenderable := by
    intro s node
    exact hasShape_of_isRenderable
      (isRenderable_of_isNodeOf node (isRenderable_of_write_eq_ok t h))
  refine ⟨shapes, ?_, ?_⟩
  · intro predicates s node logical part mem
    exact (predicates s node).parts logical mem
  · intro predicates s node
    exact (shapes s node).of_parts (predicates s node)

/-- The table admits this negation, and it has a text. -/
theorem hasShape_of_render_eq_ok_not :
    (ofNot (ofComparison .equal "Size" (ofValue (some "1")))).render {} =
        .ok "not (Size = '1')" ∧
      (ofNot (ofComparison .equal "Size" (ofValue (some "1")))).HasShape isRenderable := by
  have text : (ofNot (ofComparison .equal "Size" (ofValue (some "1")))).render {} =
      .ok "not (Size = '1')" := rfl
  exact ⟨text, (hasShape_of_render_eq_ok text).1 _ .root⟩

/-- A literal is no predicate, but as the part of a conjunction it is written. -/
theorem render_ofAnd_ofValue :
    (ofAnd [ofValue (some "x")]).render {} = .ok "('x')" ∧
      ¬ ∀ s, IsNodeOf s (ofAnd [ofValue (some "x")]) → s.HasShape isPredicate := by
  refine ⟨rfl, fun shapes => ?_⟩
  have part : (ofValue (some "x")).isPredicate := shapes _ .root _ (List.mem_singleton.mpr rfl)
  exact absurd part (by decide)

end Tree

end Metrology.Filter
