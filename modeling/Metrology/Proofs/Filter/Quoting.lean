import Metrology.Proofs.Filter.Query

/-!
# Literals stay within their quotes

Scanning the text of a query from left to right reads the literals of its tree, in
order and nothing else (`scans_of_isQuery`).  What stands between them has no
quotes.

A *slot* is a condition in which one text literal is open.  Whatever text fills it,
the rest of the filter text is the same.  The *frame* of a slot is this rest: the
text before the literal and the text behind it, with the literals that are read
there.
-/

namespace Metrology.Filter

open Literal (StartsOutside scanFrom)

namespace Tree

/-! ## Scanning trees -/

/-- Scanning a text reads these literals and goes on with the rest. -/
def Reads (cs : List Char) (texts : List String) : Prop :=
  ∀ r, StartsOutside r → scanFrom none (cs ++ r) = (scanFrom none r).map (texts ++ ·)

/-- Scanning a tree reads its literals. -/
def Scans (t : Tree) : Prop := Reads t.spelling t.literals

/-- What two texts say is said by both in a row, unless the second one could go on with a
literal of the first. -/
theorem reads_append {cs ds : List Char} {texts texts' : List String} (h : Reads cs texts)
    (h' : Reads ds texts') (outside : ∀ r, StartsOutside r → StartsOutside (ds ++ r)) :
    Reads (cs ++ ds) (texts ++ texts') := by
  intro r hr
  rw [List.append_assoc, h _ (outside r hr), h' r hr, Option.map_map]
  congr 1
  funext texts''
  simp

/-- A text without a quote adds no literal in front of another one. -/
theorem reads_plain_append {cs : List Char} (plain : Literal.quote ∉ cs) {ds : List Char}
    {texts : List String} (h : Reads ds texts) : Reads (cs ++ ds) texts := by
  intro r hr
  rw [List.append_assoc, Literal.scanFrom_append_of_not_mem plain, h r hr]

theorem reads_nil : Reads [] [] := by
  intro r _
  simp

/-- A text without a quote says no literal. -/
theorem reads_of_plain {cs : List Char} (plain : Literal.quote ∉ cs) : Reads cs [] := by
  have whole := reads_plain_append plain reads_nil
  rwa [List.append_nil] at whole

theorem reads_closing : Reads [')'] [] := reads_of_plain (by decide)

/-- Brackets say no literal. -/
theorem reads_inBrackets {cs : List Char} {texts : List String} (h : Reads cs texts) :
    Reads (inBrackets cs) texts := by
  have plain : Literal.quote ∉ ['('] := by decide
  have opening : Reads ('(' :: cs) texts := reads_plain_append plain h
  have both := reads_append opening reads_closing fun r _ => startsOutside_closing r
  rwa [List.append_nil] at both

/-- Trees with separators in front say their literals in order. -/
theorem reads_rest {separator : String} (h : IsSeparator separator) {ts : List Tree}
    (hts : ∀ t ∈ ts, t.Scans) : Reads (spellingOfRest separator ts) (literalsOfAll ts) := by
  induction ts with
  | nil => exact reads_nil
  | cons t ts ih =>
      simp only [List.mem_cons, forall_eq_or_imp] at hts
      have first : Reads (separator.toList ++ t.spelling) t.literals :=
        reads_plain_append h.plain hts.1
      exact reads_append first (ih hts.2) fun r hr => startsOutside_rest h ts hr

/-- So do trees with separators between them. -/
theorem reads_list {separator : String} (h : IsSeparator separator) {ts : List Tree}
    (hts : ∀ t ∈ ts, t.Scans) : Reads (spellingOfList separator ts) (literalsOfAll ts) := by
  cases ts with
  | nil => exact reads_nil
  | cons t ts =>
      simp only [List.mem_cons, forall_eq_or_imp] at hts
      exact reads_append hts.1 (reads_rest h hts.2) fun r hr => startsOutside_rest h ts hr

/-! ## Scanning queries -/

/-- A value says its text, or nothing if it has none. -/
theorem scans_ofValue (text : Option String) : (ofValue text).Scans := by
  intro r hr
  have literals : (ofValue text).literals = text.toList := by
    simp [ofValue, Tree.literals, literalsOfAll]
  rw [spelling_ofValue, literals]
  exact Literal.scanFrom_write_append text hr

/-- An operand says its literals. -/
theorem scans_of_isOperandOf {kind : TokenKind} {operand : Tree} (h : operand.isOperandOf kind) :
    operand.Scans := by
  rw [isOperandOf_iff] at h
  split at h
  · obtain ⟨text, texts, rfl⟩ := h
    have values : ∀ t ∈ texts.map ofValue, t.Scans := by
      intro t mem
      obtain ⟨text, -, rfl⟩ := List.mem_map.mp mem
      exact scans_ofValue text
    have literals : (valuesNode text texts).literals = literalsOfAll (texts.map ofValue) := by
      simp [valuesNode, Tree.literals]
    rw [Scans, spelling_valuesNode, literals]
    exact reads_inBrackets (reads_list isSeparator_comma values)
  · obtain ⟨text, rfl⟩ := h
    exact scans_ofValue text

/-- The text of a comparison up to its operand. -/
def comparisonHead (name symbol : String) : List Char :=
  name.toList ++ ' ' :: (symbol.toList ++ [' '])

/-- A comparison is spelled as its head and its operand. -/
theorem spelling_ofComparison {kind : TokenKind} {symbol : String} (name : String) (operand : Tree)
    (h : kind.symbol? = some symbol) :
    (ofComparison kind name operand).spelling = comparisonHead name symbol ++ operand.spelling := by
  rw [ofComparison, spelling_comparison h, spelling_ofIdentifier, comparisonHead]
  simp

/-- The literals of a comparison are those of its operand. -/
theorem literals_ofComparison {kind : TokenKind} {symbol : String} (name : String) (operand : Tree)
    (h : kind.symbol? = some symbol) :
    (ofComparison kind name operand).literals = operand.literals := by
  have other : kind ≠ .value := fun is => by
    rw [is] at h
    cases h
  simp [ofComparison, ofIdentifier, Tree.literals, literalsOfAll, other]

/-- The head of a comparison has no quote, and so it says no literal. -/
theorem quote_not_mem_comparisonHead {kind : TokenKind} {symbol name : String}
    (h : kind.symbol? = some symbol) (named : isFieldName name) :
    Literal.quote ∉ comparisonHead name symbol := by
  have space : Literal.quote ≠ ' ' := by decide
  simp [comparisonHead, (isWord_of_isFieldName named).2, (isWord_of_symbol? h).2, space]

/-- The literals of a junction are those of its parts, in order. -/
theorem literals_junction {kind : TokenKind} {separator neutral : String}
    (h : junction? kind = some (separator, neutral)) (ts : List Tree) :
    (node ⟨kind, none⟩ ts).literals = literalsOfAll ts := by
  rcases eq_of_junction? h with ⟨rfl, -⟩ | ⟨rfl, -⟩
  · simp [Tree.literals]
  · simp [Tree.literals]

theorem literals_ofNot (t : Tree) : (ofNot t).literals = t.literals := by
  simp [ofNot, Tree.literals, literalsOfAll]

/-- Scanning a query reads its literals. -/
theorem scans_of_isQuery {t : Tree} (h : t.IsQuery) : t.Scans := by
  induction h with
  | comparison symbol named shape =>
      rw [Scans, spelling_ofComparison _ _ symbol, literals_ofComparison _ _ symbol]
      exact reads_plain_append (quote_not_mem_comparisonHead symbol named)
        (scans_of_isOperandOf shape)
  | @junction kind separator neutral ts junction _ ih =>
      rw [Scans, spelling_junction junction, literals_junction junction]
      cases ts with
      | nil =>
          rcases eq_of_junction? junction with ⟨-, -, rfl⟩ | ⟨-, -, rfl⟩
          · have plain : Literal.quote ∉ "true".toList := by decide
            exact reads_of_plain plain
          · have plain : Literal.quote ∉ "false".toList := by decide
            exact reads_of_plain plain
      | cons t ts => exact reads_inBrackets (reads_list (isSeparator_of_junction? junction) ih)
  | not _ ih =>
      rw [Scans, spelling_ofNot, literals_ofNot]
      refine reads_plain_append (by decide) ?_
      split
      · exact ih
      · exact reads_inBrackets ih

end Tree

/-! ## Slots -/

/-- A condition with one open text literal. -/
inductive Slot where
  | text (field : TextField) (comparison : Comparison)
  | and (before : List Condition) (slot : Slot) (after : List Condition)
  | or (before : List Condition) (slot : Slot) (after : List Condition)
  | not (slot : Slot)

/-- The condition with a text in the open place. -/
def Slot.fill : Slot → String → Condition
  | text field comparison, s => .text field comparison (some s)
  | and before slot after, s => .and (before ++ slot.fill s :: after)
  | or before slot after, s => .or (before ++ slot.fill s :: after)
  | not slot, s => .not (slot.fill s)

namespace Tree

/-! ## Frames -/

/-- Trees that differ in one literal only, with the text and the literals on both
sides of it. -/
structure Framed (tree : String → Tree) (before after : List Char) (left right : List String) :
    Prop where
  /-- The literal stands between the two texts. -/
  spelling : ∀ s, (tree s).spelling = before ++ (Literal.enclose s ++ after)
  /-- It stands between the other literals. -/
  literals : ∀ s, (tree s).literals = left ++ s :: right
  /-- It makes the tree no deeper. -/
  levels : ∀ s s', (tree s).levels = (tree s').levels
  /-- It does not decide about brackets. -/
  isBracketed : ∀ s s', (tree s).isBracketed = (tree s').isBracketed
  /-- In front of it are the literals on the left, and none is open. -/
  readsBefore : ∀ r, scanFrom none (before ++ r) = (scanFrom none r).map (left ++ ·)
  /-- Behind it are those on the right. -/
  readsAfter : Reads after right
  /-- What is behind it does not go on with it. -/
  outside : ∀ r, StartsOutside r → StartsOutside (after ++ r)

/-- The literal of a comparison stands behind the head, and there is no other one. -/
theorem framed_comparison {kind : TokenKind} {symbol name : String}
    (h : kind.symbol? = some symbol) (named : isFieldName name) :
    Framed (fun s => ofComparison kind name (ofValue (some s))) (comparisonHead name symbol) []
      [] [] where
  spelling s := by
    rw [spelling_ofComparison _ _ h, spelling_ofValue, Literal.write, List.append_nil]
  literals s := by
    rw [literals_ofComparison _ _ h]
    rfl
  levels s s' := rfl
  isBracketed s s' := rfl
  readsBefore r := by
    rw [Literal.scanFrom_append_of_not_mem (quote_not_mem_comparisonHead h named)]
    simp
  readsAfter := reads_nil
  outside r hr := hr

theorem spellingOfRest_append (separator : String) (ss ts : List Tree) :
    spellingOfRest separator (ss ++ ts) =
      spellingOfRest separator ss ++ spellingOfRest separator ts := by
  induction ss with
  | nil => rfl
  | cons s ss ih => simp [spellingOfRest, ih]

theorem levelsOfAll_append (ss ts : List Tree) :
    levelsOfAll (ss ++ ts) = max (levelsOfAll ss) (levelsOfAll ts) := by
  induction ss with
  | nil => simp [levelsOfAll]
  | cons s ss ih => rw [List.cons_append, levelsOfAll, levelsOfAll, ih, Nat.max_assoc]

theorem literalsOfAll_append (ss ts : List Tree) :
    literalsOfAll (ss ++ ts) = literalsOfAll ss ++ literalsOfAll ts := by
  induction ss with
  | nil => rfl
  | cons s ss ih => simp [literalsOfAll, ih]

/-- What stands in front of a tree after others in a list. -/
def spellingBefore (separator : String) (ts : List Tree) : List Char :=
  if ts.isEmpty then [] else spellingOfList separator ts ++ separator.toList

/-- The text of trees in a list, seen from one of them. -/
theorem spellingOfList_append_cons (separator : String) (ss : List Tree) (t : Tree)
    (ts : List Tree) :
    spellingOfList separator (ss ++ t :: ts) =
      spellingBefore separator ss ++ (t.spelling ++ spellingOfRest separator ts) := by
  cases ss with
  | nil => rfl
  | cons s ss => simp [spellingOfList, spellingBefore, spellingOfRest_append, spellingOfRest]

/-- What stands in front of a tree in a list says the literals of the trees there. -/
theorem scanFrom_spellingBefore {separator : String} (h : IsSeparator separator) {ts : List Tree}
    (hts : ∀ t ∈ ts, t.Scans) (r : List Char) :
    scanFrom none (spellingBefore separator ts ++ r) =
      (scanFrom none r).map (literalsOfAll ts ++ ·) := by
  cases ts with
  | nil => simp [spellingBefore, literalsOfAll]
  | cons t ts =>
      rw [spellingBefore, if_neg (by simp), List.append_assoc,
        reads_list h hts _ (startsOutside_separator h r),
        Literal.scanFrom_append_of_not_mem h.plain]

/-- A literal of a part is a literal of the junction, between those of the parts around. -/
theorem framed_junction (kind : TokenKind) {separator neutral : String} {ss ts : List Tree}
    {tree : String → Tree} {before after : List Char} {left right : List String}
    (h : junction? kind = some (separator, neutral)) (hss : ∀ t ∈ ss, t.Scans)
    (hts : ∀ t ∈ ts, t.Scans) (frame : Framed tree before after left right) :
    Framed (fun s => node ⟨kind, none⟩ (ss ++ tree s :: ts))
      ('(' :: (spellingBefore separator ss ++ before))
      (after ++ (spellingOfRest separator ts ++ [')'])) (literalsOfAll ss ++ left)
      (right ++ literalsOfAll ts) where
  spelling s := by
    rw [spelling_junction h, if_neg (by simp), inBrackets, spellingOfList_append_cons,
      frame.spelling s]
    simp
  literals s := by
    rw [literals_junction h, literalsOfAll_append, literalsOfAll, frame.literals s]
    simp
  levels s s' := by
    rw [levels, levels, levelsOfAll_append, levelsOfAll_append, levelsOfAll, levelsOfAll,
      frame.levels s s']
  isBracketed s s' := rfl
  readsBefore r := by
    rw [List.cons_append, scanFrom, if_neg (by decide), List.append_assoc,
      scanFrom_spellingBefore (isSeparator_of_junction? h) hss, frame.readsBefore, Option.map_map]
    congr 1
    funext texts
    simp
  readsAfter := by
    have rest := reads_append (reads_rest (isSeparator_of_junction? h) hts) reads_closing
      fun r _ => startsOutside_closing r
    rw [List.append_nil] at rest
    refine reads_append frame.readsAfter rest fun r _ => ?_
    rw [List.append_assoc]
    exact startsOutside_rest (isSeparator_of_junction? h) ts (startsOutside_closing r)
  outside r _ := by
    rw [List.append_assoc, List.append_assoc]
    exact frame.outside _
      (startsOutside_rest (isSeparator_of_junction? h) ts (startsOutside_closing r))

/-- A literal of a predicate is a literal of its negation. -/
theorem framed_not {tree : String → Tree} {before after : List Char} {left right : List String}
    (frame : Framed tree before after left right) :
    ∃ before' after', Framed (fun s => ofNot (tree s)) before' after' left right := by
  have reads : ∀ {word : List Char}, Literal.quote ∉ word → ∀ r,
      scanFrom none (word ++ before ++ r) = (scanFrom none r).map (left ++ ·) := by
    intro word plain r
    rw [List.append_assoc, Literal.scanFrom_append_of_not_mem plain, frame.readsBefore]
  cases bracketed : (tree "").isBracketed with
  | true =>
      refine ⟨"not ".toList ++ before, after, ?_, ?_, ?_, ?_, reads (by decide),
        frame.readsAfter, frame.outside⟩
      · intro s
        rw [spelling_ofNot, frame.isBracketed s "", bracketed, if_pos rfl, frame.spelling s,
          List.append_assoc]
      · intro s
        rw [literals_ofNot, frame.literals s]
      · intro s s'
        simp only [ofNot, levels, levelsOfAll, frame.levels s s']
      · intro s s'
        rfl
  | false =>
      refine ⟨"not (".toList ++ before, after ++ [')'], ?_, ?_, ?_, ?_, reads (by decide), ?_, ?_⟩
      · intro s
        rw [spelling_ofNot, frame.isBracketed s "", bracketed, if_neg (by decide), inBrackets,
          frame.spelling s]
        simp
      · intro s
        rw [literals_ofNot, frame.literals s]
      · intro s s'
        simp only [ofNot, levels, levelsOfAll, frame.levels s s']
      · intro s s'
        rfl
      · have both := reads_append frame.readsAfter reads_closing fun r _ => startsOutside_closing r
        rwa [List.append_nil] at both
      · intro r _
        rw [List.append_assoc]
        exact frame.outside _ (startsOutside_closing r)

end Tree

/-! ## Conditions -/

/-- Trees of conditions say their literals. -/
theorem scans_of_mem_compileAll (cs : List Condition) :
    ∀ t ∈ Condition.compileAll cs, t.Scans := fun t mem =>
  Tree.scans_of_isQuery (Condition.isQuery_of_mem_compileAll cs t mem)

theorem compileAll_append_cons (cs : List Condition) (c : Condition) (ds : List Condition) :
    Condition.compileAll (cs ++ c :: ds) =
      Condition.compileAll cs ++ c.compile :: Condition.compileAll ds := by
  simp [Condition.compileAll_eq_map]

/-- Every slot has a frame. -/
theorem Slot.exists_framed (slot : Slot) :
    ∃ before after left right,
      Tree.Framed (fun s => (slot.fill s).compile) before after left right := by
  induction slot with
  | text field comparison =>
      have named := Condition.isFieldName_textField field
      cases comparison <;> exact ⟨_, _, _, _, Tree.framed_comparison rfl named⟩
  | and before slot after ih =>
      obtain ⟨_, _, _, _, frame⟩ := ih
      have junction := Tree.framed_junction TokenKind.and rfl
        (scans_of_mem_compileAll before) (scans_of_mem_compileAll after) frame
      simp only [fill, Condition.compile, compileAll_append_cons]
      exact ⟨_, _, _, _, junction⟩
  | or before slot after ih =>
      obtain ⟨_, _, _, _, frame⟩ := ih
      have junction := Tree.framed_junction TokenKind.or rfl
        (scans_of_mem_compileAll before) (scans_of_mem_compileAll after) frame
      simp only [fill, Condition.compile, compileAll_append_cons]
      exact ⟨_, _, _, _, junction⟩
  | not slot ih =>
      obtain ⟨_, _, _, _, frame⟩ := ih
      obtain ⟨_, _, negation⟩ := Tree.framed_not frame
      exact ⟨_, _, _, _, negation⟩

/-- The literals of filter text are those of its tree.  Another text in the place of
one of them changes its quoted run, and the text on both sides stays. -/
theorem scan_render {c : Condition} {config : RenderConfig} {out : String}
    (h : c.compile.render config = .ok out) :
    Literal.scan out = some c.compile.literals ∧
      ∀ (slot : Slot) (s : String), c = slot.fill s → ∃ before after left right,
        out = before ++ String.ofList (Literal.enclose s) ++ after ∧
        Literal.scan before = some left ∧ Literal.scan after = some right ∧
        c.compile.literals = left ++ s :: right ∧
        ∀ s', (slot.fill s').compile.render config =
          .ok (before ++ String.ofList (Literal.enclose s') ++ after) := by
  obtain ⟨within, rfl⟩ := Condition.render_compile_eq_ok_iff.mp h
  constructor
  · have reads := Tree.scans_of_isQuery (Condition.isQuery_compile c) [] Literal.startsOutside_nil
    rw [List.append_nil] at reads
    rw [Literal.scan, String.toList_ofList, reads]
    simp [scanFrom]
  · rintro slot s rfl
    obtain ⟨before, after, left, right, frame⟩ := slot.exists_framed
    have text : ∀ s', String.ofList (slot.fill s').compile.spelling =
        String.ofList before ++ String.ofList (Literal.enclose s') ++ String.ofList after := by
      intro s'
      rw [frame.spelling s', String.ofList_append, String.ofList_append, String.append_assoc]
    refine ⟨String.ofList before, String.ofList after, left, right, text s, ?_, ?_,
      frame.literals s, ?_⟩
    · have reads := frame.readsBefore []
      rw [List.append_nil] at reads
      rw [Literal.scan, String.toList_ofList, reads]
      simp [scanFrom]
    · have reads := frame.readsAfter [] Literal.startsOutside_nil
      rw [List.append_nil] at reads
      rw [Literal.scan, String.toList_ofList, reads]
      simp [scanFrom]
    · intro s'
      rw [Condition.render_compile_eq_ok_iff, ← text s']
      exact ⟨by rw [frame.levels s' s]; exact within, rfl⟩

/-- A quote in the literal of the first of two comparisons stays inside. -/
theorem scan_render_apostrophe :
    let slot : Slot := .and [] (.text .md5 .equal) [.integer .size .less none]
    (slot.fill "it's").compile.render {} = .ok "(MD5 = 'it''s' and Size < null)" ∧
      Literal.scan "(MD5 = 'it''s' and Size < null)" = some ["it's"] ∧
      ∃ before after, "(MD5 = 'it''s' and Size < null)" =
          before ++ String.ofList (Literal.enclose "it's") ++ after ∧
        ∀ s', (slot.fill s').compile.render {} =
          .ok (before ++ String.ofList (Literal.enclose s') ++ after) := by
  intro slot
  have text : (slot.fill "it's").compile.render {} = .ok "(MD5 = 'it''s' and Size < null)" := by
    rfl
  obtain ⟨reads, frames⟩ := scan_render text
  obtain ⟨before, after, _, _, eq, -, -, -, others⟩ := frames slot "it's" rfl
  exact ⟨text, reads, before, after, eq, others⟩

end Metrology.Filter
