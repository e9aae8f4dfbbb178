import Mathlib.Data.List.Forall2
import Metrology.Filter.Truth
import Metrology.Proofs.Filter.Literal
import Metrology.Proofs.Filter.Query

/-!
# One text, one meaning

Different conditions can have the same text.  A negation puts brackets around its
predicate, and a conjunction or a disjunction of one part puts the same brackets
around it.  Between two parts the words differ, and around none of them the
constants do.  So these are all the collisions there are, and they do no harm.

A query is *unambiguous* if whatever query has its text in front of some rest has
the same meaning and the same rest.  This is shown by induction on queries.  The
rest may be anything that does not go on with a literal.
-/

namespace Metrology.Filter

open Literal (StartsOutside)

namespace Tree

/-! ## Meanings -/

/-- Two trees that are true of the same entries. -/
def SameMeaning (s t : Tree) : Prop := ∀ v : Valuation, s.holds v = t.holds v

theorem holds_ofNot (v : Valuation) (t : Tree) : (ofNot t).holds v = !t.holds v := by
  simp [ofNot, holds]

/-- A comparison holds as the valuation says for its field and its operand. -/
theorem holds_ofComparison {kind : TokenKind} {symbol : String} (h : kind.symbol? = some symbol)
    (v : Valuation) (name : String) (operand : Tree) :
    (ofComparison kind name operand).holds v = v ⟨kind, some name, operand.asOperand⟩ := by
  cases kind <;> simp_all [TokenKind.symbol?, ofComparison, holds] <;> rfl

/-- Trees with the same meanings, pair by pair, all hold together. -/
theorem allHold_eq_of_forall₂ {ss ts : List Tree} (h : List.Forall₂ SameMeaning ss ts)
    (v : Valuation) : allHold v ss = allHold v ts := by
  induction h with
  | nil => rfl
  | cons first _ ih => rw [allHold, allHold, first v, ih]

/-- If one tree holds, so does the one with its meaning. -/
theorem someHolds_eq_of_forall₂ {ss ts : List Tree} (h : List.Forall₂ SameMeaning ss ts)
    (v : Valuation) : someHolds v ss = someHolds v ts := by
  induction h with
  | nil => rfl
  | cons first _ ih => rw [someHolds, someHolds, first v, ih]

/-- The meaning of a junction depends on those of its parts only. -/
theorem sameMeaning_junction {kind : TokenKind} {separator neutral : String} {ss ts : List Tree}
    (h : junction? kind = some (separator, neutral)) (parts : List.Forall₂ SameMeaning ss ts) :
    SameMeaning (node ⟨kind, none⟩ ss) (node ⟨kind, none⟩ ts) := by
  intro v
  rcases eq_of_junction? h with ⟨rfl, -⟩ | ⟨rfl, -⟩
  · simp only [holds, allHold_eq_of_forall₂ parts v]
  · simp only [holds, someHolds_eq_of_forall₂ parts v]

/-- A junction of one part means its part. -/
theorem holds_junction_one {kind : TokenKind} {separator neutral : String}
    (h : junction? kind = some (separator, neutral)) (v : Valuation) (t : Tree) :
    (node ⟨kind, none⟩ [t]).holds v = t.holds v := by
  rcases eq_of_junction? h with ⟨rfl, -⟩ | ⟨rfl, -⟩
  · simp [holds, allHold]
  · simp [holds, someHolds]

/-! ## Taking trees off a text -/

/-- The text of a tree tells, together with the rest behind it, the tree up to `R`
among the trees with `P`, and the rest. -/
def Decodes (R : Tree → Tree → Prop) (P : Tree → Prop) (s : Tree) : Prop :=
  ∀ (t : Tree) (r r' : List Char), P t → StartsOutside r → StartsOutside r' →
    s.spelling ++ r = t.spelling ++ r' → R s t ∧ r = r'

section Lists

variable {R : Tree → Tree → Prop} {P : Tree → Prop} {separator : String}

/-- A list that ends with a bracket tells its trees one by one, since a separator does not
start like a bracket. -/
theorem decodes_rest (h : IsSeparator separator) :
    ∀ (ss ts : List Tree) {r r' : List Char}, (∀ s ∈ ss, Decodes R P s) → (∀ t ∈ ts, P t) →
      spellingOfRest separator ss ++ ')' :: r = spellingOfRest separator ts ++ ')' :: r' →
      List.Forall₂ R ss ts ∧ r = r'
  | [], [], r, r', _, _, eq => by
      simp only [spellingOfRest, List.nil_append, List.cons.injEq, true_and] at eq
      exact ⟨.nil, eq⟩
  | [], t :: ts, r, r', _, _, eq => by
      obtain ⟨c, cs, sep, other⟩ := h.starts
      simp only [spellingOfRest, sep, List.nil_append, List.cons_append, List.cons.injEq] at eq
      exact absurd eq.1.symm other
  | s :: ss, [], r, r', _, _, eq => by
      obtain ⟨c, cs, sep, other⟩ := h.starts
      simp only [spellingOfRest, sep, List.nil_append, List.cons_append, List.cons.injEq] at eq
      exact absurd eq.1 other
  | s :: ss, t :: ts, r, r', hss, hts, eq => by
      simp only [List.mem_cons, forall_eq_or_imp] at hss hts
      simp only [spellingOfRest, List.append_assoc, List.append_cancel_left_eq] at eq
      obtain ⟨first, rest⟩ := hss.1 t _ _ hts.1 (startsOutside_rest h ss (startsOutside_closing r))
        (startsOutside_rest h ts (startsOutside_closing r')) eq
      obtain ⟨others, rest⟩ := decodes_rest h ss ts hss.2 hts.2 rest
      exact ⟨.cons first others, rest⟩

/-- Trees in brackets are told by their text if each of them is. -/
theorem decodes_cons (h : IsSeparator separator) {s t : Tree} {ss ts : List Tree}
    {r r' : List Char} (hs : ∀ s' ∈ s :: ss, Decodes R P s') (ht : ∀ t' ∈ t :: ts, P t')
    (eq : inBrackets (spellingOfList separator (s :: ss)) ++ r =
      inBrackets (spellingOfList separator (t :: ts)) ++ r') :
    List.Forall₂ R (s :: ss) (t :: ts) ∧ r = r' := by
  simp only [List.mem_cons, forall_eq_or_imp] at hs ht
  simp only [inBrackets_spellingOfList_append, List.cons.injEq, true_and] at eq
  obtain ⟨first, rest⟩ := hs.1 t _ _ ht.1 (startsOutside_rest h ss (startsOutside_closing r))
    (startsOutside_rest h ts (startsOutside_closing r')) eq
  obtain ⟨others, rest⟩ := decodes_rest h ss ts hs.2 ht.2 rest
  exact ⟨.cons first others, rest⟩

end Lists

/-! ## Comparisons -/

/-- Two trees that say the same as right operands. -/
def SameOperand (s t : Tree) : Prop := s.asOperand = t.asOperand

/-- The operand of a list of values is its texts. -/
theorem asOperand_valuesNode (text : Option String) (texts : List (Option String)) :
    (valuesNode text texts).asOperand = .many texts := by
  change Operand.many ((texts.map ofValue).map fun entry => entry.token.text) = _
  rw [List.map_map]
  exact congrArg Operand.many (List.map_id texts)

/-- A value is told by its literal. -/
theorem decodes_ofValue (text : Option String) :
    Decodes Eq (fun t => t.isValueLeaf) (ofValue text) := by
  intro t r r' ht hr hr' eq
  obtain ⟨text', rfl⟩ := isValueLeaf_iff.mp ht
  rw [spelling_ofValue, spelling_ofValue] at eq
  obtain ⟨rfl, rest⟩ := Literal.write_append_inj hr hr' eq
  exact ⟨rfl, rest⟩

theorem isValueLeaf_of_mem_map (texts : List (Option String)) :
    ∀ t ∈ texts.map ofValue, t.isValueLeaf := by
  intro t mem
  obtain ⟨text, -, rfl⟩ := List.mem_map.mp mem
  rfl

theorem decodes_of_mem_map (texts : List (Option String)) :
    ∀ s ∈ texts.map ofValue, Decodes Eq (fun t => t.isValueLeaf) s := by
  intro s mem
  obtain ⟨text, -, rfl⟩ := List.mem_map.mp mem
  exact decodes_ofValue text

/-- No literal starts with the bracket that closes a list. -/
theorem spelling_ofValue_append_ne (text : Option String) (r r' : List Char) :
    (ofValue text).spelling ++ r ≠ ')' :: r' := by
  rw [spelling_ofValue]
  cases text with
  | none => simp [Literal.write]
  | some s => simp [Literal.write, Literal.enclose, Literal.quote]

/-- A list of values is told by its literals. -/
theorem decodes_valuesNode (text : Option String) (texts : List (Option String)) :
    Decodes SameOperand (fun t => t.isListOfLeaves) (valuesNode text texts) := by
  intro t r r' ht hr hr' eq
  obtain ⟨text', texts', rfl⟩ := isListOfLeaves_iff.mp ht
  suffices same : texts = texts' ∧ r = r' by
    rw [SameOperand, asOperand_valuesNode, asOperand_valuesNode, same.1]
    exact ⟨rfl, same.2⟩
  rw [spelling_valuesNode, spelling_valuesNode] at eq
  cases texts with
  | nil =>
      cases texts' with
      | nil =>
          simp only [List.map_nil, inBrackets, spellingOfList, List.nil_append, List.cons_append,
            List.cons.injEq, true_and] at eq
          exact ⟨rfl, eq⟩
      | cons first' texts' =>
          rw [List.map_cons, inBrackets_spellingOfList_append] at eq
          exact absurd (List.cons.inj eq).2.symm (spelling_ofValue_append_ne first' _ _)
  | cons first texts =>
      cases texts' with
      | nil =>
          rw [List.map_cons, inBrackets_spellingOfList_append] at eq
          exact absurd (List.cons.inj eq).2 (spelling_ofValue_append_ne first _ _)
      | cons first' texts' =>
          obtain ⟨parts, rest⟩ := decodes_cons isSeparator_comma
            (decodes_of_mem_map (first :: texts)) (isValueLeaf_of_mem_map (first' :: texts')) eq
          rw [List.forall₂_eq_eq_eq] at parts
          have inj : Function.Injective ofValue := fun a b h => by
            cases h
            rfl
          exact ⟨List.map_injective_iff.mpr inj parts, rest⟩

/-- The operand of an operator is told by its text, a single value as well as a list. -/
theorem decodes_operand {kind : TokenKind} {operand : Tree} (h : operand.isOperandOf kind) :
    Decodes SameOperand (fun t => t.isOperandOf kind) operand := by
  intro t r r' ht hr hr' eq
  rw [isOperandOf] at h ht
  split at h
  next list =>
    obtain ⟨text, texts, rfl⟩ := isListOfLeaves_iff.mp h
    rw [if_pos list] at ht
    exact decodes_valuesNode text texts t r r' ht hr hr' eq
  next one =>
    obtain ⟨text, rfl⟩ := isValueLeaf_iff.mp h
    rw [if_neg one] at ht
    obtain ⟨same, rest⟩ := decodes_ofValue text t r r' ht hr hr' eq
    exact ⟨congrArg asOperand same, rest⟩

/-- A word ends at the first space. -/
theorem append_space_inj {a b cs ds : List Char} (ha : ' ' ∉ a) (hb : ' ' ∉ b)
    (h : a ++ ' ' :: cs = b ++ ' ' :: ds) : a = b ∧ cs = ds := by
  induction a generalizing b with
  | nil =>
      cases b with
      | nil => exact ⟨rfl, (List.cons.inj h).2⟩
      | cons d b => exact absurd (List.mem_cons.mpr (.inl (List.cons.inj h).1)) hb
  | cons c a ih =>
      simp only [List.mem_cons, not_or] at ha
      cases b with
      | nil => exact absurd (List.cons.inj h).1.symm ha.1
      | cons d b =>
          simp only [List.mem_cons, not_or] at hb
          simp only [List.cons_append, List.cons.injEq] at h
          obtain ⟨rfl, rest⟩ := ih ha.2 hb.2 h.2
          exact ⟨by rw [h.1], rest⟩

theorem find?_symbol {kind : TokenKind} {symbol : String} (h : kind.symbol? = some symbol) :
    TokenKind.all.find? (fun k => k.symbol? = some symbol) = some kind := by
  rw [← h]
  cases kind <;> first | rfl | cases h

/-- No two comparisons share a symbol. -/
theorem symbol?_inj {kind kind' : TokenKind} {symbol : String} (h : kind.symbol? = some symbol)
    (h' : kind'.symbol? = some symbol) : kind = kind' := by
  rw [← Option.some.injEq, ← find?_symbol h, ← find?_symbol h']

/-- A comparison can be taken off a text in one way only. -/
theorem decodes_comparison {kind : TokenKind} {symbol name : String} {operand : Tree}
    (h : kind.symbol? = some symbol) (named : isFieldName name)
    (shape : operand.isOperandOf kind) {kind' : TokenKind} {symbol' name' : String}
    {operand' : Tree} (h' : kind'.symbol? = some symbol') (named' : isFieldName name')
    (shape' : operand'.isOperandOf kind') {r r' : List Char} (hr : StartsOutside r)
    (hr' : StartsOutside r')
    (eq : (ofComparison kind name operand).spelling ++ r =
      (ofComparison kind' name' operand').spelling ++ r') :
    SameMeaning (ofComparison kind name operand) (ofComparison kind' name' operand') ∧ r = r' := by
  rw [ofComparison, ofComparison, spelling_comparison h, spelling_comparison h',
    spelling_ofIdentifier, spelling_ofIdentifier] at eq
  simp only [List.append_assoc, List.cons_append] at eq
  obtain ⟨names, behindName⟩ :=
    append_space_inj (isWord_of_isFieldName named).1 (isWord_of_isFieldName named').1 eq
  obtain ⟨symbols, behind⟩ :=
    append_space_inj (isWord_of_symbol? h).1 (isWord_of_symbol? h').1 behindName
  rw [String.toList_inj] at names symbols
  subst names symbols
  obtain rfl := symbol?_inj h h'
  obtain ⟨operands, rest⟩ := decodes_operand shape operand' r r' shape' hr hr' behind
  refine ⟨fun v => ?_, rest⟩
  rw [holds_ofComparison h, holds_ofComparison h, operands]

/-! ## Junctions -/

section Junction

variable {kind kind' : TokenKind} {separator neutral separator' neutral' : String}
  {ss ts : List Tree} {r r' : List Char}

/-- The words between the parts tell a conjunction from a disjunction. -/
theorem separator_append_ne (h : junction? kind = some (separator, neutral))
    (h' : junction? kind' = some (separator', neutral')) (ne : kind ≠ kind') (cs ds : List Char) :
    separator.toList ++ cs ≠ separator'.toList ++ ds := by
  rcases eq_of_junction? h with ⟨rfl, rfl, -⟩ | ⟨rfl, rfl, -⟩ <;>
    rcases eq_of_junction? h' with ⟨rfl, rfl, -⟩ | ⟨rfl, rfl, -⟩
  · exact absurd rfl ne
  · simp
  · simp
  · exact absurd rfl ne

/-- Junctions of different kinds can have one text only if they have one part each. -/
theorem rest_nil_of_ne (h : junction? kind = some (separator, neutral))
    (h' : junction? kind' = some (separator', neutral')) (ne : kind ≠ kind')
    (eq : spellingOfRest separator ss ++ ')' :: r = spellingOfRest separator' ts ++ ')' :: r') :
    ss = [] ∧ ts = [] ∧ r = r' := by
  obtain ⟨c, cs, sep, hc⟩ := (isSeparator_of_junction? h).starts
  obtain ⟨c', cs', sep', hc'⟩ := (isSeparator_of_junction? h').starts
  cases ss with
  | nil =>
      cases ts with
      | nil => exact ⟨rfl, rfl, (List.cons.inj eq).2⟩
      | cons t ts =>
          rw [spellingOfRest, spellingOfRest, sep'] at eq
          exact absurd (List.cons.inj eq).1.symm hc'
  | cons s ss =>
      cases ts with
      | nil =>
          rw [spellingOfRest, spellingOfRest, sep] at eq
          exact absurd (List.cons.inj eq).1 hc
      | cons t ts =>
          simp only [spellingOfRest, List.append_assoc] at eq
          exact absurd eq (separator_append_ne h h' ne _ _)

/-- The word of a junction without parts tells its kind. -/
theorem decodes_neutral (h : junction? kind = some (separator, neutral))
    (h' : junction? kind' = some (separator', neutral'))
    (eq : neutral.toList ++ r = neutral'.toList ++ r') : kind = kind' ∧ r = r' := by
  rcases eq_of_junction? h with ⟨rfl, -, rfl⟩ | ⟨rfl, -, rfl⟩ <;>
    rcases eq_of_junction? h' with ⟨rfl, -, rfl⟩ | ⟨rfl, -, rfl⟩
  · exact ⟨rfl, List.append_cancel_left eq⟩
  · simp at eq
  · simp at eq
  · exact ⟨rfl, List.append_cancel_left eq⟩

/-- The word of a junction without parts is no bracket. -/
theorem neutral_append_ne (h : junction? kind = some (separator, neutral)) (cs ds : List Char) :
    neutral.toList ++ cs ≠ inBrackets ds ++ r := by
  rcases eq_of_junction? h with ⟨-, -, rfl⟩ | ⟨-, -, rfl⟩
  · simp [inBrackets]
  · simp [inBrackets]

/-- Junctions are unambiguous if their parts are. -/
theorem decodes_junction (h : junction? kind = some (separator, neutral))
    (hss : ∀ s ∈ ss, Decodes SameMeaning IsQuery s)
    (h' : junction? kind' = some (separator', neutral')) (hts : ∀ t ∈ ts, IsQuery t)
    (eq : (node ⟨kind, none⟩ ss).spelling ++ r = (node ⟨kind', none⟩ ts).spelling ++ r') :
    SameMeaning (node ⟨kind, none⟩ ss) (node ⟨kind', none⟩ ts) ∧ r = r' := by
  rw [spelling_junction h, spelling_junction h'] at eq
  cases ss with
  | nil =>
      cases ts with
      | nil =>
          obtain ⟨rfl, rest⟩ := decodes_neutral h h' eq
          exact ⟨fun v => rfl, rest⟩
      | cons t ts => exact absurd eq (neutral_append_ne h _ _)
  | cons s ss =>
      cases ts with
      | nil => exact absurd eq.symm (neutral_append_ne h' _ _)
      | cons t ts =>
          by_cases same : kind = kind'
          · subst same
            obtain ⟨rfl, -⟩ := Prod.mk.inj (Option.some.inj (h.symm.trans h'))
            obtain ⟨parts, rest⟩ := decodes_cons (isSeparator_of_junction? h) hss hts eq
            exact ⟨sameMeaning_junction h parts, rest⟩
          · simp only [List.isEmpty_cons, Bool.false_eq_true, if_false,
              inBrackets_spellingOfList_append, List.cons.injEq, true_and] at eq
            obtain ⟨first, behind⟩ := hss s List.mem_cons_self t _ _ (hts t List.mem_cons_self)
              (startsOutside_rest (isSeparator_of_junction? h) ss (startsOutside_closing r))
              (startsOutside_rest (isSeparator_of_junction? h') ts (startsOutside_closing r')) eq
            obtain ⟨rfl, rfl, rest⟩ := rest_nil_of_ne h h' same behind
            refine ⟨fun v => ?_, rest⟩
            rw [holds_junction_one h, holds_junction_one h', first v]

end Junction

/-! ## First characters -/

/-- The sorts of queries that the first character tells apart. -/
inductive Opening where
  | comparison
  | negation
  | junction
deriving DecidableEq

/-- The sort of query that a text starts with. -/
def opening : List Char → Opening
  | [] => .junction
  | c :: _ => if c.isUpper then .comparison else if c = 'n' then .negation else .junction

/-- A comparison starts with the capital letter of its field. -/
theorem opening_comparison {kind : TokenKind} {symbol name : String} (operand : Tree)
    (h : kind.symbol? = some symbol) (named : isFieldName name) (r : List Char) :
    opening ((ofComparison kind name operand).spelling ++ r) = .comparison := by
  rw [ofComparison, spelling_comparison h, spelling_ofIdentifier]
  rw [isFieldName] at named
  split at named
  next empty => cases named
  next c cs eq =>
    rw [Bool.and_eq_true] at named
    rw [eq]
    exact if_pos named.1

/-- A junction starts with a bracket or with its word. -/
theorem opening_junction {kind : TokenKind} {separator neutral : String}
    (h : junction? kind = some (separator, neutral)) (ts : List Tree) (r : List Char) :
    opening ((node ⟨kind, none⟩ ts).spelling ++ r) = .junction := by
  rw [spelling_junction h]
  cases ts with
  | nil => rcases eq_of_junction? h with ⟨-, -, rfl⟩ | ⟨-, -, rfl⟩ <;> rfl
  | cons t ts => rfl

/-- A negation starts with its word. -/
theorem opening_ofNot (t : Tree) (r : List Char) :
    opening ((ofNot t).spelling ++ r) = .negation := by
  simp only [ofNot, spelling]
  rfl

/-! ## Negations -/

/-- What stands behind the word of a negation: a junction, or its predicate as the
only part of one. -/
def bracketed (t : Tree) : Tree := if t.isBracketed then t else ofAnd [t]

theorem spelling_ofNot_eq_bracketed (t : Tree) :
    (ofNot t).spelling = "not ".toList ++ (bracketed t).spelling := by
  rw [spelling_ofNot, bracketed]
  split
  · rfl
  · rw [ofAnd, spelling_junction rfl]
    simp [spellingOfList, spellingOfRest]

/-- A conjunction of one part means what the part means. -/
theorem sameMeaning_bracketed (t : Tree) : SameMeaning (bracketed t) t := by
  intro v
  rw [bracketed]
  split
  · rfl
  · exact holds_junction_one rfl v t

theorem isQuery_bracketed {t : Tree} (h : t.IsQuery) : (bracketed t).IsQuery := by
  rw [bracketed]
  split
  · exact h
  · exact .junction rfl fun s mem => by rwa [List.mem_singleton.mp mem]

/-! ## Queries -/

/-- A junction is told by its text if its parts are. -/
theorem decodes_query_junction {kind : TokenKind} {separator neutral : String} {ss : List Tree}
    (h : junction? kind = some (separator, neutral))
    (hss : ∀ s ∈ ss, Decodes SameMeaning IsQuery s) :
    Decodes SameMeaning IsQuery (node ⟨kind, none⟩ ss) := by
  intro t r r' ht _ _ eq
  have openings := congrArg opening eq
  rw [opening_junction h] at openings
  cases ht with
  | comparison h' named' _ =>
      rw [opening_comparison _ h' named'] at openings
      cases openings
  | junction h' hts => exact decodes_junction h hss h' hts eq
  | not _ =>
      rw [opening_ofNot] at openings
      cases openings

/-- What stands behind the word of a negation is told by its text. -/
theorem decodes_bracketed {t : Tree} (h : Decodes SameMeaning IsQuery t) :
    Decodes SameMeaning IsQuery (bracketed t) := by
  rw [bracketed]
  split
  · exact h
  · exact decodes_query_junction rfl fun s mem => by rwa [List.mem_singleton.mp mem]

/-- Every query is unambiguous. -/
theorem decodes_of_isQuery {s : Tree} (h : s.IsQuery) : Decodes SameMeaning IsQuery s := by
  induction h with
  | comparison symbol named shape =>
      intro t r r' ht hr hr' eq
      have openings := congrArg opening eq
      rw [opening_comparison _ symbol named] at openings
      cases ht with
      | comparison symbol' named' shape' =>
          exact decodes_comparison symbol named shape symbol' named' shape' hr hr' eq
      | junction junction' _ =>
          rw [opening_junction junction'] at openings
          cases openings
      | not _ =>
          rw [opening_ofNot] at openings
          cases openings
  | junction junction _ ih => exact decodes_query_junction junction ih
  | @not s _ ih =>
      intro t r r' ht hr hr' eq
      have openings := congrArg opening eq
      rw [opening_ofNot] at openings
      cases ht with
      | comparison symbol' named' _ =>
          rw [opening_comparison _ symbol' named'] at openings
          cases openings
      | junction junction' _ =>
          rw [opening_junction junction'] at openings
          cases openings
      | @not t ht =>
          rw [spelling_ofNot_eq_bracketed, spelling_ofNot_eq_bracketed, List.append_assoc,
            List.append_assoc] at eq
          obtain ⟨same, rest⟩ := decodes_bracketed ih (bracketed t) r r' (isQuery_bracketed ht) hr
            hr' (List.append_cancel_left eq)
          refine ⟨fun v => ?_, rest⟩
          rw [holds_ofNot, holds_ofNot, ← sameMeaning_bracketed s v, same v,
            sameMeaning_bracketed t v]

end Tree

/-! ## Conditions -/

/-- Conditions with the same text mean the same, under whatever limits they got it. -/
theorem holds_eq_of_render_eq {c d : Condition} {config config' : RenderConfig} {out : String}
    (hc : c.compile.render config = .ok out) (hd : d.compile.render config' = .ok out)
    (v : Valuation) : c.compile.holds v = d.compile.holds v := by
  obtain ⟨-, hc⟩ := Condition.render_compile_eq_ok_iff.mp hc
  obtain ⟨-, hd⟩ := Condition.render_compile_eq_ok_iff.mp hd
  have texts : c.compile.spelling = d.compile.spelling := by
    rw [← String.ofList_inj, ← hc, ← hd]
  have nothing := Literal.startsOutside_nil
  exact (Tree.decodes_of_isQuery (Condition.isQuery_compile c) d.compile [] []
    (Condition.isQuery_compile d) nothing nothing (by rw [texts])).1 v

/-- A negation and a negation of a conjunction of one part have one text. -/
theorem holds_eq_of_render_eq_negations :
    let c : Condition := .text .md5 .equal (some "it's")
    (Condition.not c).compile.render {} = .ok "not (MD5 = 'it''s')" ∧
      (Condition.not (.and [c])).compile.render ⟨4⟩ = .ok "not (MD5 = 'it''s')" ∧
      ∀ v, (Condition.not c).compile.holds v = (Condition.not (.and [c])).compile.holds v := by
  intro c
  have first : (Condition.not c).compile.render {} = .ok "not (MD5 = 'it''s')" := by decide
  have second : (Condition.not (.and [c])).compile.render ⟨4⟩ = .ok "not (MD5 = 'it''s')" := by
    decide
  exact ⟨first, second, holds_eq_of_render_eq first second⟩

end Metrology.Filter
