import Metrology.Filter.Shape

/-!
# Spellings

Writing a tree mixes three things: the text, the limit on the depth and the
faults.  The *spelling* of a tree is the text alone.  It is a function of the
tree, and it knows no limit and no text in front.

`write_of_isRenderable` takes writing apart again.  A renderable tree has its
spelling put behind what is already there if its *levels* fit under the limit.
Otherwise the outcome is that it is too deep, and no other fault can come first.
-/

namespace Metrology.Filter

namespace Tree

/-! ## Levels -/

mutual

/-- The number of levels of a tree. -/
def levels : Tree → Nat
  | node _ children => levelsOfAll children + 1

/-- The largest number of levels of a list of trees. -/
def levelsOfAll : List Tree → Nat
  | [] => 0
  | t :: ts => max (levels t) (levelsOfAll ts)

end

theorem levels_pos (t : Tree) : 1 ≤ t.levels := by
  cases t with
  | node token children => simp [levels]

/-! ## The text alone -/

/-- A text in brackets. -/
def inBrackets (cs : List Char) : List Char := '(' :: (cs ++ [')'])

mutual

/-- The text of a tree.  Trees that are not renderable have some text too. -/
def spelling : Tree → List Char
  | node token children =>
    match token.kind, children with
    | .value, _ => Literal.write token.text
    | .valueList, entries => inBrackets (spellingOfList ", " entries)
    | .identifier, _ => (token.text.getD "").toList
    | .and, [] => "true".toList
    | .and, t :: ts => inBrackets (spellingOfList " and " (t :: ts))
    | .or, [] => "false".toList
    | .or, t :: ts => inBrackets (spellingOfList " or " (t :: ts))
    | .not, [t] =>
      "not ".toList ++ (if t.isBracketed then spelling t else inBrackets (spelling t))
    | operator, [field, operand] =>
      spelling field ++ ' ' :: ((operator.symbol?.getD "").toList ++ ' ' :: spelling operand)
    | _, _ => []

/-- The texts of trees with `separator` between them. -/
def spellingOfList (separator : String) : List Tree → List Char
  | [] => []
  | t :: ts => spelling t ++ spellingOfRest separator ts

/-- The texts of trees, each after `separator`. -/
def spellingOfRest (separator : String) : List Tree → List Char
  | [] => []
  | t :: ts => separator.toList ++ spelling t ++ spellingOfRest separator ts

end

/-- A comparison is spelled as its field, its symbol and its operand, with a space between
each. -/
theorem spelling_comparison {token : Token} {symbol : String} {field operand : Tree}
    (h : token.kind.symbol? = some symbol) :
    (node token [field, operand]).spelling =
      field.spelling ++ ' ' :: (symbol.toList ++ ' ' :: operand.spelling) := by
  obtain ⟨kind, text⟩ := token
  cases kind <;> cases h <;> rfl

theorem spelling_ofNot (t : Tree) : (ofNot t).spelling =
    "not ".toList ++ (if t.isBracketed then t.spelling else inBrackets t.spelling) := rfl

/-! ## Outcomes -/

/-- What becomes of `out` if `cs` is to stand behind it and its last level is `last`. -/
def outcome (limit last : Nat) (out : String) (cs : List Char) : Except RenderError String :=
  if limit < last then .error (.depthExceeded limit) else .ok (out ++ String.ofList cs)

section Outcome

variable {limit last last' depth : Nat} {out : String} {cs ds : List Char}

/-- Within the limit the text is put behind what is there. -/
theorem outcome_of_le (h : last ≤ limit) :
    outcome limit last out cs = .ok (out ++ String.ofList cs) :=
  if_neg (Nat.not_lt.mpr h)

/-- Beyond the limit no text matters, only that it is too deep. -/
theorem outcome_of_lt (h : limit < last) :
    outcome limit last out cs = .error (.depthExceeded limit) :=
  if_pos h

/-- A text that is already there may as well be still to be written. -/
theorem outcome_append :
    outcome limit last (out ++ String.ofList cs) ds = outcome limit last out (cs ++ ds) := by
  simp [outcome, String.append_assoc, String.ofList_append]

theorem outcome_append_string {s : String} :
    outcome limit last (out ++ s) ds = outcome limit last out (s.toList ++ ds) := by
  rw [← outcome_append, String.ofList_toList]

/-- Two texts written one after the other are one text, as deep as the deeper of them. -/
theorem outcome_bind_outcome :
    (outcome limit last out cs >>= fun out => outcome limit last' out ds) =
      outcome limit (max last last') out (cs ++ ds) := by
  by_cases h : limit < last
  · rw [outcome_of_lt h, outcome_of_lt (by omega)]
    rfl
  · rw [outcome_of_le (by omega)]
    change outcome limit last' (out ++ String.ofList cs) ds = _
    rw [outcome_append]
    by_cases h' : limit < last'
    · rw [outcome_of_lt h', outcome_of_lt (by omega)]
    · rw [outcome_of_le (by omega), outcome_of_le (by omega)]

/-- A text behind another one that adds no level belongs to it. -/
theorem outcome_bind_append :
    (outcome limit last out cs >>= fun out => .ok (out ++ String.ofList ds)) =
      outcome limit last out (cs ++ ds) := by
  by_cases h : limit < last
  · rw [outcome_of_lt h, outcome_of_lt h]
    rfl
  · rw [outcome_of_le (by omega), ← outcome_append, outcome_of_le (by omega)]
    rfl

/-- Brackets around a text add no level. -/
theorem outcome_bind_inBrackets :
    (outcome limit last (out ++ "(") cs >>= fun out => .ok (out ++ ")")) =
      outcome limit last out (inBrackets cs) := by
  change (outcome limit last (out ++ String.ofList ['(']) cs >>= fun out =>
    .ok (out ++ String.ofList [')'])) = _
  rw [outcome_bind_append, outcome_append]
  rfl

/-- Two texts in brackets, each with its own last level. -/
theorem outcome_bind_outcome_inBrackets {first rest : String → Except RenderError String}
    (hfirst : ∀ out, first out = outcome limit last out cs)
    (hrest : ∀ out, rest out = outcome limit last' out ds) :
    (first (out ++ "(") >>= fun out => rest out >>= fun out => .ok (out ++ ")")) =
      outcome limit (max last last') out (inBrackets (cs ++ ds)) := by
  rw [← outcome_bind_inBrackets, ← outcome_bind_outcome, hfirst]
  simp only [hrest]
  cases outcome limit last (out ++ "(") cs with
  | error e => rfl
  | ok out => rfl

/-- The check of a depth is part of that of the last level. -/
theorem checkDepth_bind_outcome (h : depth ≤ last) :
    (checkDepth limit depth >>= fun _ => outcome limit last out cs) =
      outcome limit last out cs := by
  by_cases hd : limit < depth
  · rw [checkDepth, if_pos hd, outcome_of_lt (by omega)]
    rfl
  · rw [checkDepth, if_neg hd]
    rfl

end Outcome

/-! ## Leaves -/

/-- A value leaf holds a text or none, and nothing else. -/
theorem isValueLeaf_iff {t : Tree} : t.isValueLeaf ↔ ∃ text, t = ofValue text := by
  obtain ⟨⟨kind, text⟩, children⟩ := t
  simp [isValueLeaf, Tree.kind, Tree.token, Tree.children, ofValue]

/-- A named leaf holds a name that is not empty, and nothing else. -/
theorem isNamedLeaf_iff {t : Tree} :
    t.isNamedLeaf ↔ ∃ name, name.isEmpty = false ∧ t = ofIdentifier name := by
  obtain ⟨⟨kind, text⟩, children⟩ := t
  cases text with
  | none => simp [isNamedLeaf, Tree.token, ofIdentifier]
  | some name =>
      simp only [isNamedLeaf, Tree.kind, Tree.token, Tree.children, ofIdentifier, Option.any_some,
        Bool.and_eq_true, beq_iff_eq, List.isEmpty_iff, Bool.not_eq_true']
      constructor
      · rintro ⟨⟨rfl, rfl⟩, nonempty⟩
        exact ⟨name, nonempty, rfl⟩
      · rintro ⟨name, nonempty, h⟩
        cases h
        exact ⟨⟨rfl, rfl⟩, nonempty⟩

/-- Trees that are all value leaves come from a list of texts. -/
theorem all_isValueLeaf_iff {ts : List Tree} :
    ts.all isValueLeaf ↔ ∃ texts : List (Option String), ts = texts.map ofValue := by
  induction ts with
  | nil => simp
  | cons t ts ih =>
      simp only [List.all_cons, Bool.and_eq_true, ih, isValueLeaf_iff]
      constructor
      · rintro ⟨⟨text, rfl⟩, texts, rfl⟩
        exact ⟨text :: texts, rfl⟩
      · rintro ⟨texts, h⟩
        cases texts with
        | nil => cases h
        | cons text texts =>
            cases h
            exact ⟨⟨text, rfl⟩, texts, rfl⟩

@[simp] theorem kind_ofValue (text : Option String) : (ofValue text).kind = .value := rfl

@[simp] theorem levels_ofValue (text : Option String) : (ofValue text).levels = 1 := rfl

@[simp] theorem levels_ofIdentifier (name : String) : (ofIdentifier name).levels = 1 := rfl

@[simp] theorem spelling_ofValue (text : Option String) :
    (ofValue text).spelling = Literal.write text := rfl

@[simp] theorem spelling_ofIdentifier (name : String) :
    (ofIdentifier name).spelling = name.toList := rfl

/-- A value is written as its spelling, whatever stands in front. -/
theorem writeValue_ofValue (text : Option String) (out : String) :
    writeValue (ofValue text) out = .ok (out ++ String.ofList (ofValue text).spelling) := by
  rw [spelling_ofValue]
  rfl

/-- A name is written as it is, unless it is empty. -/
theorem writeIdentifier_ofIdentifier {name : String} (h : name.isEmpty = false) (out : String) :
    writeIdentifier (ofIdentifier name) out =
      .ok (out ++ String.ofList (ofIdentifier name).spelling) := by
  rw [spelling_ofIdentifier, String.ofList_toList]
  change (if name.isEmpty then _ else _) = _
  rw [h]
  rfl

/-! ## Lists of values -/

/-- A list of literals.  Its token may carry a text, which does not count. -/
def valuesNode (text : Option String) (texts : List (Option String)) : Tree :=
  node ⟨.valueList, text⟩ (texts.map ofValue)

/-- A list of leaves is a value list whose entries are texts. -/
theorem isListOfLeaves_iff {t : Tree} :
    t.isListOfLeaves ↔ ∃ text texts, t = valuesNode text texts := by
  obtain ⟨⟨kind, text⟩, children⟩ := t
  simp only [isListOfLeaves, Tree.kind, Tree.token, Tree.children, Bool.and_eq_true, beq_iff_eq,
    all_isValueLeaf_iff, valuesNode]
  constructor
  · rintro ⟨rfl, texts, rfl⟩
    exact ⟨text, texts, rfl⟩
  · rintro ⟨text, texts, h⟩
    cases h
    exact ⟨rfl, texts, rfl⟩

@[simp] theorem levels_valuesNode (text : Option String) (texts : List (Option String)) :
    (valuesNode text texts).levels = if texts.isEmpty then 1 else 2 := by
  rw [valuesNode, levels]
  induction texts with
  | nil => rfl
  | cons first texts ih =>
      rw [List.map_cons, levelsOfAll, levels_ofValue]
      cases texts with
      | nil => rfl
      | cons second texts =>
          have one : levelsOfAll ((second :: texts).map ofValue) = 1 := by simpa using ih
          rw [one]
          rfl

@[simp] theorem spelling_valuesNode (text : Option String) (texts : List (Option String)) :
    (valuesNode text texts).spelling = inBrackets (spellingOfList ", " (texts.map ofValue)) := rfl

section Entries

variable {limit depth : Nat} (list : Token)

/-- Entries behind the first one are written with a separator in front of each. -/
theorem writeEntries_rest (h : depth ≤ limit) :
    ∀ (texts : List (Option String)) (out : String),
      writeEntries list ", " (texts.map ofValue) out =
        outcome limit depth out (spellingOfRest ", " (texts.map ofValue))
  | [], out => by
      rw [List.map_nil, writeEntries, spellingOfRest, outcome_of_le h]
      simp
  | text :: texts, out => by
      rw [List.map_cons, writeEntries, if_pos (kind_ofValue text), writeValue_ofValue]
      change writeEntries list ", " (texts.map ofValue) _ = _
      rw [writeEntries_rest h texts, outcome_append]
      change outcome limit depth (out ++ String.ofList [',', ' ']) _ = _
      rw [outcome_append]
      rfl

/-- The first entry is written without a separator. -/
theorem writeEntries_ofValues (h : depth ≤ limit) (texts : List (Option String)) (out : String) :
    writeEntries list "" (texts.map ofValue) out =
      outcome limit depth out (spellingOfList ", " (texts.map ofValue)) := by
  cases texts with
  | nil =>
      rw [List.map_nil, writeEntries, spellingOfList, outcome_of_le h]
      simp
  | cons text texts =>
      rw [List.map_cons, writeEntries, if_pos (kind_ofValue text), writeValue_ofValue]
      change writeEntries list ", " (texts.map ofValue) _ = _
      rw [writeEntries_rest list h, outcome_append, String.append_empty]
      rfl

/-- A list of values is written as its spelling, or its entries are too deep. -/
theorem writeValueList_valuesNode (h : depth < limit) (text : Option String)
    (texts : List (Option String)) (out : String) :
    writeValueList limit (valuesNode text texts) (depth + 1) out =
      outcome limit (depth + (valuesNode text texts).levels) out
        (valuesNode text texts).spelling := by
  rw [levels_valuesNode, spelling_valuesNode, ← outcome_bind_inBrackets]
  cases texts with
  | nil =>
      change (writeEntries _ "" ([].map ofValue) (out ++ "(") >>= fun out => .ok (out ++ ")")) = _
      rw [writeEntries_ofValues _ h]
      rfl
  | cons first texts =>
      change (checkDepth limit (depth + 1 + 1) >>= fun _ =>
        writeEntries _ "" ((first :: texts).map ofValue) (out ++ "(") >>= fun out =>
          .ok (out ++ ")")) = _
      by_cases two : depth + 2 ≤ limit
      · rw [checkDepth, if_neg (by omega), writeEntries_ofValues _ two]
        rfl
      · rw [checkDepth, if_pos (by omega), outcome_of_lt (by simp; omega)]
        rfl

end Entries

/-! ## Comparisons -/

/-- The operand of an operator is a list of values or a single one, as the operator asks for.
-/
theorem isOperandOf_iff {operator : TokenKind} {t : Tree} :
    t.isOperandOf operator ↔
      if operator.operandKind = .valueList then ∃ text texts, t = valuesNode text texts
      else ∃ text, t = ofValue text := by
  rw [isOperandOf]
  split
  · exact isListOfLeaves_iff
  · exact isValueLeaf_iff

theorem operandKind_of_ne {operator : TokenKind} (h : operator.operandKind ≠ .valueList) :
    operator.operandKind = .value := by
  cases operator <;> first | rfl | exact absurd rfl h

theorem kind_of_isOperandOf {operator : TokenKind} {t : Tree} (h : t.isOperandOf operator) :
    t.kind = operator.operandKind := by
  rw [isOperandOf_iff] at h
  split at h
  next list =>
    obtain ⟨text, texts, rfl⟩ := h
    exact list.symm
  next one =>
    obtain ⟨text, rfl⟩ := h
    exact (operandKind_of_ne one).symm

section Comparison

variable {limit depth : Nat} {operator : Token} {name : String} {operand : Tree}

/-- The operand is written one level below the comparison. -/
theorem writeOperand_of_isOperandOf (h : depth < limit) (shape : operand.isOperandOf operator.kind)
    (out : String) :
    (if operand.kind = .valueList then writeValueList limit operand (depth + 1) out
      else writeValue operand out) =
      outcome limit (depth + operand.levels) out operand.spelling := by
  rw [isOperandOf_iff] at shape
  split at shape
  next list =>
    obtain ⟨text, texts, rfl⟩ := shape
    exact writeValueList_valuesNode h text texts out
  next one =>
    obtain ⟨text, rfl⟩ := shape
    rw [levels_ofValue, outcome_of_le h]
    exact writeValue_ofValue text out

/-- A comparison with a field name and an operand of the right shape is written as its
spelling. -/
theorem writeComparison_of_isOperandOf (h : depth < limit) (named : name.isEmpty = false)
    (shape : operand.isOperandOf operator.kind) (symbol out : String) :
    writeComparison limit operator symbol [ofIdentifier name, operand] (depth + 1) out =
      outcome limit (depth + 1 + operand.levels) out
        (name.toList ++ ' ' :: (symbol.toList ++ ' ' :: operand.spelling)) := by
  rw [writeComparison, if_neg (by simp [ofIdentifier, Tree.kind, Tree.token]),
    if_neg (by simp [kind_of_isOperandOf shape])]
  by_cases deep : depth + 2 ≤ limit
  · rw [checkDepth, if_neg (by omega), writeIdentifier_ofIdentifier named]
    change (if operand.kind = .valueList then _ else _) = _
    rw [writeOperand_of_isOperandOf deep shape]
    have text : out ++ String.ofList (ofIdentifier name).spelling ++ " " ++ symbol ++ " " =
        out ++ String.ofList (name.toList ++ ' ' :: (symbol.toList ++ [' '])) := by
      rw [← String.toList_inj]
      simp
    rw [text, outcome_append]
    simp
  · have pos := levels_pos operand
    rw [checkDepth, if_pos (by omega), outcome_of_lt (by omega)]
    rfl

end Comparison

/-! ## Junctions and negations -/

/-- The word between the parts of a conjunction or a disjunction, and the text of one
that has no parts. -/
def junction? : TokenKind → Option (String × String)
  | .and => some (" and ", "true")
  | .or => some (" or ", "false")
  | _ => none

section Junction

variable {limit depth : Nat} {kind : TokenKind} {separator neutral : String}

/-- Conjunctions and disjunctions are all the junctions there are. -/
theorem eq_of_junction? (h : junction? kind = some (separator, neutral)) :
    (kind = .and ∧ separator = " and " ∧ neutral = "true") ∨
      (kind = .or ∧ separator = " or " ∧ neutral = "false") := by
  cases kind <;> simp only [junction?, Option.some.injEq, Prod.mk.injEq, reduceCtorEq] at h
  · exact .inl ⟨rfl, h.1.symm, h.2.symm⟩
  · exact .inr ⟨rfl, h.1.symm, h.2.symm⟩

/-- A junction without parts is a word, and any other one stands in brackets. -/
theorem spelling_junction (h : junction? kind = some (separator, neutral)) (text : Option String)
    (children : List Tree) :
    (node ⟨kind, text⟩ children).spelling =
      if children.isEmpty then neutral.toList
      else inBrackets (spellingOfList separator children) := by
  rcases eq_of_junction? h with ⟨rfl, rfl, rfl⟩ | ⟨rfl, rfl, rfl⟩
  · cases children <;> rfl
  · cases children <;> rfl

/-- The writing of a node whose content has an outcome within the limit. -/
theorem checkDepth_bind_of_within {content : Except RenderError String} {last : Nat} {out : String}
    {cs : List Char} (later : depth < last)
    (h : depth < limit → content = outcome limit last out cs) :
    (checkDepth limit (depth + 1) >>= fun _ => content) = outcome limit last out cs := by
  by_cases within : depth < limit
  · rw [h within, checkDepth_bind_outcome later]
  · rw [checkDepth, if_pos (by omega), outcome_of_lt (by omega)]
    rfl

/-- A junction without parts is written as its word. -/
theorem write_junction_nil (h : junction? kind = some (separator, neutral)) (text : Option String)
    (out : String) :
    write limit (node ⟨kind, text⟩ []) (depth + 1) out =
      outcome limit (depth + (node ⟨kind, text⟩ []).levels) out
        (node ⟨kind, text⟩ []).spelling := by
  have step : write limit (node ⟨kind, text⟩ []) (depth + 1) out =
      (checkDepth limit (depth + 1) >>= fun _ => .ok (out ++ neutral)) := by
    rcases eq_of_junction? h with ⟨rfl, rfl, rfl⟩ | ⟨rfl, rfl, rfl⟩
    · rfl
    · rfl
  rw [step, spelling_junction h]
  refine checkDepth_bind_of_within (by simp [levels]) fun within => ?_
  rw [levels, levelsOfAll, outcome_of_le within]
  simp

/-- A junction is written as its spelling if this is so of its parts. -/
theorem write_junction_cons (h : junction? kind = some (separator, neutral)) (text : Option String)
    (child : Tree) (rest : List Tree)
    (hchild : ∀ out, write limit child (depth + 2) out =
      outcome limit (depth + 1 + child.levels) out child.spelling)
    (hrest : depth < limit → ∀ out, writeRest limit separator rest (depth + 2) out =
      outcome limit (depth + 1 + levelsOfAll rest) out (spellingOfRest separator rest))
    (out : String) :
    write limit (node ⟨kind, text⟩ (child :: rest)) (depth + 1) out =
      outcome limit (depth + (node ⟨kind, text⟩ (child :: rest)).levels) out
        (node ⟨kind, text⟩ (child :: rest)).spelling := by
  have step : write limit (node ⟨kind, text⟩ (child :: rest)) (depth + 1) out =
      (checkDepth limit (depth + 1) >>= fun _ =>
        write limit child (depth + 2) (out ++ "(") >>= fun out =>
          writeRest limit separator rest (depth + 2) out >>= fun out => .ok (out ++ ")")) := by
    rcases eq_of_junction? h with ⟨rfl, rfl, rfl⟩ | ⟨rfl, rfl, rfl⟩
    · rfl
    · rfl
  rw [step, spelling_junction h]
  refine checkDepth_bind_of_within (by simp [levels]) fun within => ?_
  rw [outcome_bind_outcome_inBrackets hchild (hrest within), levels, levelsOfAll,
    Nat.add_max_add_left, Nat.add_assoc, Nat.add_comm 1]
  rfl

/-- A negation is written as its spelling if this is so of its part. -/
theorem write_not (text : Option String) (child : Tree)
    (hchild : ∀ out, write limit child (depth + 2) out =
      outcome limit (depth + 1 + child.levels) out child.spelling) (out : String) :
    write limit (node ⟨.not, text⟩ [child]) (depth + 1) out =
      outcome limit (depth + (node ⟨.not, text⟩ [child]).levels) out
        (node ⟨.not, text⟩ [child]).spelling := by
  change (checkDepth limit (depth + 1) >>= fun _ =>
    if child.isBracketed then write limit child (depth + 2) (out ++ "not ")
    else write limit child (depth + 2) (out ++ "not (") >>= fun out => .ok (out ++ ")")) = _
  refine checkDepth_bind_of_within (by simp [levels]) fun within => ?_
  have last : depth + (node ⟨.not, text⟩ [child]).levels = depth + 1 + child.levels := by
    simp [levels, levelsOfAll]
    omega
  have text : (node ⟨.not, text⟩ [child]).spelling = "not ".toList ++
      (if child.isBracketed then child.spelling else inBrackets child.spelling) := rfl
  rw [last, text]
  cases bracketed : child.isBracketed with
  | true => rw [if_pos rfl, if_pos rfl, hchild, outcome_append_string]
  | false =>
      have opening : out ++ "not (" = out ++ "not " ++ "(" := by
        rw [String.append_assoc]
        rfl
      rw [if_neg Bool.false_ne_true, if_neg Bool.false_ne_true, hchild, opening,
        outcome_bind_inBrackets, outcome_append_string]

end Junction

/-! ## Renderable nodes -/

theorem areRenderable_iff {ts : List Tree} : areRenderable ts ↔ ∀ t ∈ ts, t.isRenderable := by
  induction ts with
  | nil => simp [areRenderable]
  | cons t ts ih => simp [areRenderable, ih]

/-- Values, lists of values and identifiers share one branch. -/
theorem isRenderable_operand {kind : TokenKind} {text : Option String} {children : List Tree}
    (h : kind = .value ∨ kind = .valueList ∨ kind = .identifier) :
    (node ⟨kind, text⟩ children).isRenderable =
      let t := node ⟨kind, text⟩ children
      t.isValueLeaf || t.isListOfLeaves || t.isNamedLeaf := by
  rcases h with rfl | rfl | rfl
  · rfl
  · rfl
  · rfl

theorem isRenderable_value_iff {text : Option String} {children : List Tree} :
    (node ⟨.value, text⟩ children).isRenderable ↔ isValueLeaf (node ⟨.value, text⟩ children) := by
  rw [isRenderable_operand (.inl rfl)]
  simp [isListOfLeaves, isNamedLeaf, Tree.kind, Tree.token]

theorem isRenderable_valueList_iff {text : Option String} {children : List Tree} :
    (node ⟨.valueList, text⟩ children).isRenderable ↔
      isListOfLeaves (node ⟨.valueList, text⟩ children) := by
  rw [isRenderable_operand (.inr (.inl rfl))]
  simp [isValueLeaf, isNamedLeaf, Tree.kind, Tree.token]

theorem isRenderable_identifier_iff {text : Option String} {children : List Tree} :
    (node ⟨.identifier, text⟩ children).isRenderable ↔
      isNamedLeaf (node ⟨.identifier, text⟩ children) := by
  rw [isRenderable_operand (.inr (.inr rfl))]
  simp [isValueLeaf, isListOfLeaves, Tree.kind, Tree.token]

/-- A junction is renderable if its parts are, however many there are. -/
theorem isRenderable_junction_iff {kind : TokenKind} {separator neutral : String}
    (h : junction? kind = some (separator, neutral)) {text : Option String} {ts : List Tree} :
    (node ⟨kind, text⟩ ts).isRenderable ↔ areRenderable ts := by
  rcases eq_of_junction? h with ⟨rfl, -⟩ | ⟨rfl, -⟩
  · exact Iff.rfl
  · exact Iff.rfl

/-- A negation is renderable if it has one part and this is. -/
theorem isRenderable_not_iff {text : Option String} {children : List Tree} :
    (node ⟨.not, text⟩ children).isRenderable ↔
      ∃ child, children = [child] ∧ child.isRenderable := by
  match children with
  | [] | _ :: _ :: _ =>
      constructor
      · exact fun h => absurd h Bool.false_ne_true
      · rintro ⟨_, eq, -⟩
        cases eq
  | [child] =>
      constructor
      · exact fun h => ⟨child, rfl, h⟩
      · rintro ⟨_, eq, h⟩
        cases eq
        exact h

/-- A comparison is renderable if it has a named field and an operand of its shape. -/
theorem isRenderable_comparison_iff {token : Token} {symbol : String} {children : List Tree}
    (h : token.kind.symbol? = some symbol) :
    (node token children).isRenderable ↔
      ∃ field operand, children = [field, operand] ∧ field.isNamedLeaf ∧
        operand.isOperandOf token.kind := by
  obtain ⟨kind, text⟩ := token
  match children with
  | [] | [_] | _ :: _ :: _ :: _ =>
      constructor
      · intro renderable
        cases kind <;> cases h <;> exact absurd renderable Bool.false_ne_true
      · rintro ⟨_, _, eq, -⟩
        cases eq
  | [field, operand] =>
      have parts : (node ⟨kind, text⟩ [field, operand]).isRenderable =
          (field.isNamedLeaf && operand.isOperandOf kind) := by
        cases kind <;> cases h <;> rfl
      rw [parts, Bool.and_eq_true]
      constructor
      · exact fun h => ⟨field, operand, rfl, h⟩
      · rintro ⟨_, _, eq, h⟩
        cases eq
        exact h

/-! ## Trees -/

section Trees

variable {limit : Nat}

/-- A renderable comparison is written as its spelling, or it is too deep. -/
theorem write_comparison {token : Token} {symbol : String} {children : List Tree}
    (h : token.kind.symbol? = some symbol) (renderable : (node token children).isRenderable)
    (depth : Nat) (out : String) :
    write limit (node token children) (depth + 1) out =
      outcome limit (depth + (node token children).levels) out (node token children).spelling := by
  have step : write limit (node token children) (depth + 1) out =
      (checkDepth limit (depth + 1) >>= fun _ =>
        writeComparison limit token symbol children (depth + 1) out) := by
    obtain ⟨kind, text⟩ := token
    cases kind <;> cases h <;> rfl
  obtain ⟨field, operand, rfl, leaf, shape⟩ := (isRenderable_comparison_iff h).mp renderable
  obtain ⟨name, named, rfl⟩ := isNamedLeaf_iff.mp leaf
  have pos := levels_pos operand
  rw [step, spelling_comparison h, spelling_ofIdentifier]
  refine checkDepth_bind_of_within (by simp [levels]) fun within => ?_
  rw [writeComparison_of_isOperandOf within named shape]
  congr 1
  simp [levels, levelsOfAll]
  omega

mutual

/-- A renderable tree is written as its spelling, or it is too deep. -/
theorem write_of_isRenderable (t : Tree) (h : t.isRenderable) (depth : Nat) (out : String) :
    write limit t (depth + 1) out = outcome limit (depth + t.levels) out t.spelling := by
  obtain ⟨⟨kind, text⟩, children⟩ := t
  cases kind with
  | value =>
      obtain ⟨text, eq⟩ := isValueLeaf_iff.mp (isRenderable_value_iff.mp h)
      rw [eq]
      refine checkDepth_bind_of_within (by simp) fun within => ?_
      rw [levels_ofValue, outcome_of_le within]
      exact writeValue_ofValue text out
  | valueList =>
      obtain ⟨text, texts, eq⟩ := isListOfLeaves_iff.mp (isRenderable_valueList_iff.mp h)
      rw [eq]
      refine checkDepth_bind_of_within ?_ fun within =>
        writeValueList_valuesNode within text texts out
      have pos := levels_pos (valuesNode text texts)
      omega
  | identifier =>
      obtain ⟨name, nonempty, eq⟩ := isNamedLeaf_iff.mp (isRenderable_identifier_iff.mp h)
      rw [eq]
      refine checkDepth_bind_of_within (by simp) fun within => ?_
      rw [levels_ofIdentifier, outcome_of_le within]
      exact writeIdentifier_ofIdentifier nonempty out
  | and =>
      cases children with
      | nil => exact write_junction_nil rfl text out
      | cons child rest =>
          have parts : areRenderable (child :: rest) := (isRenderable_junction_iff rfl).mp h
          rw [areRenderable, Bool.and_eq_true] at parts
          exact write_junction_cons rfl text child rest
            (write_of_isRenderable child parts.1 (depth + 1))
            (writeRest_of_areRenderable " and " rest parts.2 (depth + 1)) out
  | or =>
      cases children with
      | nil => exact write_junction_nil rfl text out
      | cons child rest =>
          have parts : areRenderable (child :: rest) := (isRenderable_junction_iff rfl).mp h
          rw [areRenderable, Bool.and_eq_true] at parts
          exact write_junction_cons rfl text child rest
            (write_of_isRenderable child parts.1 (depth + 1))
            (writeRest_of_areRenderable " or " rest parts.2 (depth + 1)) out
  | not =>
      match children, h with
      | [child], h =>
          exact write_not text child
            (write_of_isRenderable child h (depth + 1)) out
      | [], h | _ :: _ :: _, h => exact absurd h Bool.false_ne_true
  | like => exact absurd h Bool.false_ne_true
  | _ => exact write_comparison rfl h depth out

/-- Renderable trees are written one after the other, or one of them is too deep. -/
theorem writeRest_of_areRenderable (separator : String) (ts : List Tree) (h : areRenderable ts)
    (depth : Nat) (within : depth ≤ limit) (out : String) :
    writeRest limit separator ts (depth + 1) out =
      outcome limit (depth + levelsOfAll ts) out (spellingOfRest separator ts) := by
  cases ts with
  | nil =>
      rw [writeRest, levelsOfAll, spellingOfRest, Nat.add_zero, outcome_of_le within]
      simp
  | cons t ts =>
      simp only [areRenderable, Bool.and_eq_true] at h
      rw [writeRest, write_of_isRenderable t h.1]
      simp only [writeRest_of_areRenderable separator ts h.2 depth within]
      rw [outcome_bind_outcome, outcome_append_string, levelsOfAll, spellingOfRest,
        List.append_assoc, Nat.add_max_add_left]

end

end Trees

/-- What becomes of a renderable tree depends on its levels and its spelling only. -/
theorem render_of_isRenderable {t : Tree} (h : t.isRenderable) (config : RenderConfig) :
    t.render config = outcome config.maxDepth t.levels "" t.spelling := by
  rw [render, write_of_isRenderable t h, Nat.zero_add]

/-- A renderable tree has a text exactly within the limit, and this is its spelling. -/
theorem render_eq_ok_iff {t : Tree} (h : t.isRenderable) {config : RenderConfig} {out : String} :
    t.render config = .ok out ↔ t.levels ≤ config.maxDepth ∧ out = String.ofList t.spelling := by
  rw [render_of_isRenderable h, outcome]
  by_cases deep : config.maxDepth < t.levels
  · simp [deep, Nat.not_le.mpr deep]
  · rw [if_neg deep, String.empty_append, Except.ok.injEq, eq_comm]
    simp only [Nat.not_lt.mp deep, true_and]

end Tree

end Metrology.Filter
