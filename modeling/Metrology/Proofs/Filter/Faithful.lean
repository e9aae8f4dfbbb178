import Metrology.Filter.Condition
import Metrology.Proofs.Calendar.Timestamp
import Metrology.Proofs.Text.Digits

/-!
# What compiling keeps

A tree of tokens has no place for what a literal is.  Timestamps, integers and texts
all become texts, and comparisons of all three kinds become nodes of one shape.  Yet
compiling loses nothing but what the text of a timestamp does not show, and this is its
part below a tick and the place of a leap second within a minute (`compile_eq_iff`).

No two fields share a name, whatever the kind of their values (`Field.name_inj`).  So
a comparison tells the field, and the field the kind of the literal.  The text of the
literal then tells the literal: an integer is settled by its digits, and of a timestamp
the tick that is shown.  The proof goes down two conditions at once.  At each node the
root says which constructor stands on the other side.
-/

namespace Metrology.Filter

open Calendar (Timestamp)

/-! ## Names and signs -/

/-- A field, whatever the kind of its values. -/
inductive Field where
  | time (field : TimeField)
  | integer (field : IntegerField)
  | text (field : TextField)

namespace Field

/-- All fields. -/
def all : List Field :=
  TimeField.all.map time ++ IntegerField.all.map integer ++ TextField.all.map text

/-- The name in filter text. -/
def name : Field → String
  | time field => field.name
  | integer field => field.name
  | text field => field.name

theorem find?_name (f : Field) : all.find? (fun g => g.name = f.name) = some f := by
  cases f with
  | time field => cases field <;> rfl
  | integer field => cases field <;> rfl
  | text field => cases field <;> rfl

/-- No two fields share a name. -/
theorem name_inj {f g : Field} (h : f.name = g.name) : f = g := by
  rw [← Option.some.injEq, ← f.find?_name, h, g.find?_name]

end Field

theorem Comparison.find?_kind (o : Comparison) :
    all.find? (fun p => p.kind = o.kind) = some o := by
  cases o <;> rfl

/-- The kind of a node tells the comparison. -/
theorem Comparison.kind_inj {o p : Comparison} (h : o.kind = p.kind) : o = p := by
  rw [← Option.some.injEq, ← o.find?_kind, h, p.find?_kind]

namespace Condition

/-! ## Texts of literals -/

/-- The digits of an integer tell it. -/
theorem integerText_inj {m n : Int64} (h : integerText m = integerText n) : m = n :=
  Int64.toInt_inj.mp (Text.writeInteger_inj (String.ofList_injective h))

/-- The text of a timestamp tells what is shown of it, to the tick. -/
theorem timeText_eq_iff {s t : Timestamp} :
    timeText s = timeText t ↔ s.shown.toTick = t.shown.toTick := by
  rw [timeText, timeText, String.ofList_inj, Timestamp.write_eq_iff]

theorem map_toTick_shown_of_map_timeText {l m : Option Timestamp}
    (h : l.map timeText = m.map timeText) : l.map (·.shown.toTick) = m.map (·.shown.toTick) := by
  cases l with
  | none =>
      cases m with
      | none => rfl
      | some t => cases h
  | some s =>
      cases m with
      | none => cases h
      | some t =>
          have ticks : s.shown.toTick = t.shown.toTick := timeText_eq_iff.mp (Option.some.inj h)
          rw [Option.map_some, Option.map_some, ticks]

/-! ## Comparisons -/

/-- The tree of a comparison tells its parts. -/
theorem compare_inj {f g : Field} {o p : Comparison} {l m : Option String}
    (h : compare f.name o l = compare g.name p m) : f = g ∧ o = p ∧ l = m := by
  simp only [compare, Tree.ofComparison, Tree.ofIdentifier, Tree.ofValue, Tree.node.injEq,
    Token.mk.injEq, List.cons.injEq, Option.some.injEq, true_and, and_true] at h
  obtain ⟨kinds, names, literals⟩ := h
  exact ⟨Field.name_inj names, Comparison.kind_inj kinds, literals⟩

/-- The tree of a comparison with a list tells its parts. -/
theorem compareAll_inj {kind kind' : TokenKind} {f g : IntegerField} {ls ms : List Int64}
    (h : compareAll kind f.name ls = compareAll kind' g.name ms) :
    kind = kind' ∧ f = g ∧ ls = ms := by
  simp only [compareAll, Tree.ofComparison, Tree.ofIdentifier, Tree.ofValues, Tree.node.injEq,
    Token.mk.injEq, List.cons.injEq, Option.some.injEq, true_and, and_true, List.map_map] at h
  obtain ⟨kinds, names, literals⟩ := h
  have fields : Field.integer f = Field.integer g := Field.name_inj names
  refine ⟨kinds, Field.integer.inj fields, (List.map_inj_right ?_).mp literals⟩
  intro m n values
  simp only [Function.comp_apply, Tree.ofValue, Tree.node.injEq, Token.mk.injEq,
    Option.some.injEq, true_and, and_true] at values
  exact integerText_inj values

/-- A condition as the comparison of a field with the text of one literal. -/
def asComparison? : Condition → Option (Field × Comparison × Option String)
  | time field comparison literal => some (.time field, comparison, literal.map timeText)
  | integer field comparison literal => some (.integer field, comparison, literal.map integerText)
  | text field comparison literal => some (.text field, comparison, literal)
  | _ => none

/-! ## Roots -/

/-- The kind of node that a condition becomes. -/
def kind : Condition → TokenKind
  | and _ => .and
  | or _ => .or
  | not _ => .not
  | time _ comparison _ | integer _ comparison _ | text _ comparison _ => comparison.kind
  | integerIn .. => .memberOf
  | integerNotIn .. => .notMemberOf

theorem kind_compile (c : Condition) : c.compile.kind = c.kind := by
  cases c <;> rfl

/-- What a condition is if it becomes a node of the given kind. -/
def Becomes (d : Condition) : TokenKind → Prop
  | .and => ∃ ds, d = and ds
  | .or => ∃ ds, d = or ds
  | .not => ∃ e, d = not e
  | .memberOf => ∃ field literals, d = integerIn field literals
  | .notMemberOf => ∃ field literals, d = integerNotIn field literals
  | _ => ∃ comparison, d.asComparison? = some comparison

theorem becomes_kind (d : Condition) : d.Becomes d.kind := by
  cases d with
  | and ds => exact ⟨ds, rfl⟩
  | or ds => exact ⟨ds, rfl⟩
  | not e => exact ⟨e, rfl⟩
  | time _ comparison _ | integer _ comparison _ | text _ comparison _ =>
      cases comparison <;> exact ⟨_, rfl⟩
  | integerIn field literals => exact ⟨field, literals, rfl⟩
  | integerNotIn field literals => exact ⟨field, literals, rfl⟩

/-- Of two conditions with one tree, the root of the first tells what the second is. -/
theorem becomes_of_compile_eq {c d : Condition} (h : c.compile = d.compile) :
    d.Becomes c.kind := by
  rw [← c.kind_compile, h, d.kind_compile]
  exact d.becomes_kind

theorem compile_of_asComparison? {c : Condition} {f : Field} {o : Comparison} {l : Option String}
    (h : c.asComparison? = some (f, o, l)) : c.compile = compare f.name o l := by
  cases c with
  | time g p m =>
      cases h
      rfl
  | integer g p m =>
      cases h
      rfl
  | text g p m =>
      cases h
      rfl
  | _ => cases h

/-- A condition with the tree of a comparison is a comparison with the same texts. -/
theorem asComparison?_of_compile_eq {c d : Condition} (h : c.compile = d.compile) {f : Field}
    {o : Comparison} {l : Option String} (hc : c.asComparison? = some (f, o, l)) :
    d.asComparison? = some (f, o, l) := by
  have kind : c.kind = o.kind := by
    rw [← c.kind_compile, compile_of_asComparison? hc]
    rfl
  have root : d.Becomes o.kind := kind ▸ becomes_of_compile_eq h
  obtain ⟨⟨g, p, m⟩, hd⟩ : ∃ comparison, d.asComparison? = some comparison := by
    cases o <;> exact root
  rw [compile_of_asComparison? hc, compile_of_asComparison? hd] at h
  obtain ⟨rfl, rfl, rfl⟩ := compare_inj h
  exact hd

/-! ## Conditions -/

mutual

/-- Timestamps with the same text are not told apart. -/
theorem compile_mapTimes {f : Timestamp → Timestamp} (texts : ∀ t, timeText (f t) = timeText t) :
    (c : Condition) → (c.mapTimes f).compile = c.compile
  | and cs => by rw [mapTimes, compile, compile, compileAll_mapTimesAll texts cs]
  | or cs => by rw [mapTimes, compile, compile, compileAll_mapTimesAll texts cs]
  | not c => by rw [mapTimes, compile, compile, compile_mapTimes texts c]
  | time field comparison literal => by
      have same : (literal.map f).map timeText = literal.map timeText := by
        rw [Option.map_map]
        exact congrArg (literal.map ·) (funext texts)
      rw [mapTimes, compile, compile, same]
  | integer .. | text .. | integerIn .. | integerNotIn .. => rfl

theorem compileAll_mapTimesAll {f : Timestamp → Timestamp}
    (texts : ∀ t, timeText (f t) = timeText t) :
    (cs : List Condition) → compileAll (mapTimesAll f cs) = compileAll cs
  | [] => rfl
  | c :: cs => by
      rw [mapTimesAll, compileAll, compileAll, compile_mapTimes texts c,
        compileAll_mapTimesAll texts cs]

end

mutual

/-- Conditions with the same tree agree in what is shown of their timestamps, and in all else.
-/
theorem mapTimes_eq_of_compile_eq : (c d : Condition) → c.compile = d.compile →
    c.mapTimes (·.shown.toTick) = d.mapTimes (·.shown.toTick)
  | and cs, d, h => by
      obtain ⟨ds, rfl⟩ := becomes_of_compile_eq h
      simp only [compile, Tree.ofAnd, Tree.node.injEq, true_and] at h
      rw [mapTimes, mapTimes, mapTimesAll_eq_of_compileAll_eq cs ds h]
  | or cs, d, h => by
      obtain ⟨ds, rfl⟩ := becomes_of_compile_eq h
      simp only [compile, Tree.ofOr, Tree.node.injEq, true_and] at h
      rw [mapTimes, mapTimes, mapTimesAll_eq_of_compileAll_eq cs ds h]
  | not c, d, h => by
      obtain ⟨e, rfl⟩ := becomes_of_compile_eq h
      simp only [compile, Tree.ofNot, Tree.node.injEq, List.cons.injEq, true_and, and_true] at h
      rw [mapTimes, mapTimes, mapTimes_eq_of_compile_eq c e h]
  | time field comparison literal, d, h => by
      have same := asComparison?_of_compile_eq h rfl
      cases d with
      | time field' comparison' literal' =>
          simp only [asComparison?, Option.some.injEq, Prod.mk.injEq, Field.time.injEq] at same
          obtain ⟨rfl, rfl, texts⟩ := same
          rw [mapTimes, mapTimes, map_toTick_shown_of_map_timeText texts]
      | _ => cases same
  | integer field comparison literal, d, h => by
      have same := asComparison?_of_compile_eq h rfl
      cases d with
      | integer field' comparison' literal' =>
          simp only [asComparison?, Option.some.injEq, Prod.mk.injEq, Field.integer.injEq] at same
          obtain ⟨rfl, rfl, texts⟩ := same
          rw [Option.map_injective (fun _ _ => integerText_inj) texts]
      | _ => cases same
  | text field comparison literal, d, h => by
      have same := asComparison?_of_compile_eq h rfl
      cases d with
      | text field' comparison' literal' =>
          cases same
          rfl
      | _ => cases same
  | integerIn field literals, d, h => by
      obtain ⟨field', literals', rfl⟩ := becomes_of_compile_eq h
      obtain ⟨-, rfl, rfl⟩ := compareAll_inj h
      rfl
  | integerNotIn field literals, d, h => by
      obtain ⟨field', literals', rfl⟩ := becomes_of_compile_eq h
      obtain ⟨-, rfl, rfl⟩ := compareAll_inj h
      rfl

theorem mapTimesAll_eq_of_compileAll_eq : (cs ds : List Condition) →
    compileAll cs = compileAll ds →
    mapTimesAll (·.shown.toTick) cs = mapTimesAll (·.shown.toTick) ds
  | [], [], _ => rfl
  | [], _ :: _, h => by cases h
  | _ :: _, [], h => by cases h
  | c :: cs, d :: ds, h => by
      simp only [compileAll, List.cons.injEq] at h
      rw [mapTimesAll, mapTimesAll, mapTimes_eq_of_compile_eq c d h.1,
        mapTimesAll_eq_of_compileAll_eq cs ds h.2]

end

end Condition

end Metrology.Filter
