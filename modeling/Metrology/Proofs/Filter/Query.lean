import Metrology.Filter.Condition
import Metrology.Proofs.Filter.Literal
import Metrology.Proofs.Filter.Spelling

/-!
# Queries

A *query* is a tree of the shape that conditions compile to.  It is renderable, and
the names of its fields are plain words.  Proofs about compiled conditions go by
induction on this shape, and so they do not look at conditions any more.
-/

namespace Metrology.Filter

/-- A name that starts with a capital letter and goes on with letters and digits. -/
def isFieldName (name : String) : Bool :=
  match name.toList with
  | [] => false
  | c :: cs => c.isUpper && cs.all Char.isAlphanum

namespace Tree

open Literal (StartsOutside startsOutside_cons)

/-- A predicate over named fields. -/
inductive IsQuery : Tree → Prop where
  | comparison {kind : TokenKind} {symbol name : String} {operand : Tree} :
    kind.symbol? = some symbol →
    isFieldName name →
    operand.isOperandOf kind →
    IsQuery (ofComparison kind name operand)
  | junction {kind : TokenKind} {separator neutral : String} {ts : List Tree} :
    junction? kind = some (separator, neutral) →
    (∀ t ∈ ts, IsQuery t) →
    IsQuery (node ⟨kind, none⟩ ts)
  | not {t : Tree} :
    IsQuery t →
    IsQuery (ofNot t)

/-! ## Queries are renderable -/

/-- A comparison with a name and an operand of the right shape is renderable. -/
theorem isRenderable_ofComparison {kind : TokenKind} {symbol name : String} {operand : Tree}
    (h : kind.symbol? = some symbol) (named : name.isEmpty = false)
    (shape : operand.isOperandOf kind) : (ofComparison kind name operand).isRenderable := by
  have leaf : (ofIdentifier name).isNamedLeaf := isNamedLeaf_iff.mpr ⟨name, named, rfl⟩
  exact (isRenderable_comparison_iff h).mpr ⟨ofIdentifier name, operand, rfl, leaf, shape⟩

/-- The name of a field is not empty. -/
theorem isEmpty_of_isFieldName {name : String} (h : isFieldName name) : name.isEmpty = false := by
  cases empty : name.isEmpty with
  | false => rfl
  | true =>
      rw [String.isEmpty_iff] at empty
      subst empty
      exact absurd h (by decide)

/-- Every query is renderable. -/
theorem isRenderable_of_isQuery {t : Tree} (h : t.IsQuery) : t.isRenderable := by
  induction h with
  | comparison symbol named shape =>
      exact isRenderable_ofComparison symbol (isEmpty_of_isFieldName named) shape
  | junction junction _ ih =>
      exact (isRenderable_junction_iff junction).mpr (areRenderable_iff.mpr ih)
  | not _ ih => simpa [ofNot, isRenderable] using ih

/-! ## Words and separators -/

/-- Characters that neither end a word nor start a literal. -/
def IsWord (cs : List Char) : Prop := ' ' ∉ cs ∧ Literal.quote ∉ cs

/-- The name of a field is a word, because it has letters and digits only. -/
theorem isWord_of_isFieldName {name : String} (h : isFieldName name) : IsWord name.toList := by
  have alphanumeric : ∀ c ∈ name.toList, c.isAlphanum := by
    intro c mem
    rw [isFieldName] at h
    split at h
    next empty => simp [empty] at mem
    next d ds eq =>
      rw [eq, List.mem_cons] at mem
      rw [Bool.and_eq_true] at h
      rcases mem with rfl | mem
      · have letter : c.isAlpha := Bool.or_eq_true_iff.mpr (.inl h.1)
        exact Bool.or_eq_true_iff.mpr (.inl letter)
      · exact List.all_eq_true.mp h.2 c mem
  constructor
  · intro mem
    exact absurd (alphanumeric ' ' mem) (by decide)
  · intro mem
    exact absurd (alphanumeric Literal.quote mem) (by decide)

/-- The symbol of a comparison is a word. -/
theorem isWord_of_symbol? {kind : TokenKind} {symbol : String}
    (h : kind.symbol? = some symbol) : IsWord symbol.toList := by
  cases kind <;> simp only [TokenKind.symbol?, Option.some.injEq, reduceCtorEq] at h
  all_goals
    subst h
    exact ⟨by decide, by decide⟩

/-- What can stand between trees in brackets. -/
structure IsSeparator (separator : String) : Prop where
  /-- It does not start like the bracket at the end. -/
  starts : ∃ c cs, separator.toList = c :: cs ∧ c ≠ ')'
  /-- It starts no literal. -/
  plain : Literal.quote ∉ separator.toList

theorem isSeparator_comma : IsSeparator ", " := ⟨⟨',', [' '], rfl, by decide⟩, by decide⟩

/-- The words between the parts of junctions are separators. -/
theorem isSeparator_of_junction? {kind : TokenKind} {separator neutral : String}
    (h : junction? kind = some (separator, neutral)) : IsSeparator separator := by
  rcases eq_of_junction? h with ⟨-, rfl, -⟩ | ⟨-, rfl, -⟩
  · exact ⟨⟨' ', _, rfl, by decide⟩, by decide⟩
  · exact ⟨⟨' ', _, rfl, by decide⟩, by decide⟩

theorem startsOutside_closing (r : List Char) : StartsOutside (')' :: r) :=
  startsOutside_cons (by decide) r

theorem startsOutside_separator {separator : String} (h : IsSeparator separator) (r : List Char) :
    StartsOutside (separator.toList ++ r) := by
  obtain ⟨c, cs, eq, -⟩ := h.starts
  have plain := h.plain
  rw [eq] at plain ⊢
  exact startsOutside_cons (fun is => plain (is ▸ List.mem_cons_self)) _

/-- What follows a tree in brackets starts outside a literal. -/
theorem startsOutside_rest {separator : String} (h : IsSeparator separator) (ts : List Tree)
    {r : List Char} (hr : StartsOutside r) :
    StartsOutside (spellingOfRest separator ts ++ r) := by
  cases ts with
  | nil => exact hr
  | cons t ts =>
      rw [spellingOfRest, List.append_assoc, List.append_assoc]
      exact startsOutside_separator h _

/-- The text of trees in brackets begins with the bracket and the first of them. -/
theorem inBrackets_spellingOfList_append (separator : String) (t : Tree) (ts : List Tree)
    (r : List Char) :
    inBrackets (spellingOfList separator (t :: ts)) ++ r =
      '(' :: (t.spelling ++ (spellingOfRest separator ts ++ ')' :: r)) := by
  simp [inBrackets, spellingOfList]

end Tree

/-! ## Conditions compile to queries -/

namespace Condition

open Filter.Tree (IsQuery)

theorem isFieldName_timeField (field : TimeField) : isFieldName field.name := by
  cases field <;> decide

theorem isFieldName_integerField (field : IntegerField) : isFieldName field.name := by
  cases field <;> decide

theorem isFieldName_textField (field : TextField) : isFieldName field.name := by
  cases field <;> decide

/-- A comparison with one literal is a query. -/
theorem isQuery_compare {field : String} (h : isFieldName field) (comparison : Comparison)
    (literal : Option String) : (compare field comparison literal).IsQuery := by
  cases comparison <;> exact .comparison rfl h rfl

/-- So is a comparison with a list of integers. -/
theorem isQuery_compareAll {kind : TokenKind} {field : String} (h : isFieldName field)
    (hkind : kind = .memberOf ∨ kind = .notMemberOf) (literals : List Int64) :
    (compareAll kind field literals).IsQuery := by
  have list : ∀ texts, (Tree.ofValues texts).isListOfLeaves := fun texts =>
    Tree.isListOfLeaves_iff.mpr ⟨none, texts, rfl⟩
  rcases hkind with rfl | rfl
  · exact .comparison rfl h (list _)
  · exact .comparison rfl h (list _)

mutual

/-- A condition compiles to a query. -/
theorem isQuery_compile : (c : Condition) → c.compile.IsQuery
  | and cs => .junction rfl (isQuery_of_mem_compileAll cs)
  | or cs => .junction rfl (isQuery_of_mem_compileAll cs)
  | not c => .not (isQuery_compile c)
  | time field .. => isQuery_compare (isFieldName_timeField field) _ _
  | integer field .. => isQuery_compare (isFieldName_integerField field) _ _
  | text field .. => isQuery_compare (isFieldName_textField field) _ _
  | integerIn field _ => isQuery_compareAll (isFieldName_integerField field) (.inl rfl) _
  | integerNotIn field _ => isQuery_compareAll (isFieldName_integerField field) (.inr rfl) _

theorem isQuery_of_mem_compileAll : (cs : List Condition) → ∀ t ∈ compileAll cs, t.IsQuery
  | [], _, mem => by simp [compileAll] at mem
  | c :: cs, t, mem => by
      simp only [compileAll, List.mem_cons] at mem
      rcases mem with rfl | mem
      · exact isQuery_compile c
      · exact isQuery_of_mem_compileAll cs t mem

end

/-- The text of a condition, if it has one, is the spelling of its tree. -/
theorem render_compile_eq_ok_iff {c : Condition} {config : RenderConfig} {out : String} :
    c.compile.render config = .ok out ↔
      c.compile.levels ≤ config.maxDepth ∧ out = String.ofList c.compile.spelling :=
  Tree.render_eq_ok_iff (Tree.isRenderable_of_isQuery (isQuery_compile c))

end Condition

end Metrology.Filter
