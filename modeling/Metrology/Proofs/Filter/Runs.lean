import Mathlib.Data.List.Forall2
import Metrology.Filter.Render

/-!
# Two runs side by side

Besides the tree, three things go into its writing: the limit, the depth of the root
and the text in front.  Here two runs are compared that differ in all of them, and also
in the parts of the tree that stand too deep.

The first run can end because the tree is too deep, and then it tells nothing of the
second one.  In all other cases the second run *follows* it.  Both end with the same
fault, or both put the same text behind what stood in front (`follows_write`).

Two things are asked of the runs.  The second one has as much room below its root as
the first one, or more.  And the two trees agree down to one level below the limit of
the first run.  No writer looks further.  The depth of a node is checked before its
subtrees are, and of a node that is too deep only the token is looked at, by the node
above it.
-/

namespace Metrology.Filter

/-! ## Outcomes -/

/-- The same text, once behind `front` and once behind `front'`. -/
def Behind (front front' out out' : String) : Prop :=
  ∃ text, out = front ++ text ∧ out' = front' ++ text

/-- The outcome of a run, and the outcome of a run that follows it. -/
inductive Follows (limit : Nat) (front front' : String) :
    Except RenderError String → Except RenderError String → Prop where
  /-- A run that is too deep is followed by every other one. -/
  | tooDeep {y : Except RenderError String} :
    Follows limit front front' (.error (.depthExceeded limit)) y
  /-- Both end with the same fault of a node. -/
  | fault {e : RenderError} :
    e.token?.isSome → Follows limit front front' (.error e) (.error e)
  /-- Both have written the same. -/
  | done {out out' : String} :
    Behind front front' out out' → Follows limit front front' (.ok out) (.ok out')

section Outcomes

variable {limit : Nat} {front front' : String}

theorem behind_self (front front' : String) : Behind front front' front front' :=
  ⟨"", by simp, by simp⟩

/-- Two texts that went on alike still do so after one more piece. -/
theorem Behind.append {out out' : String} (h : Behind front front' out out') (s : String) :
    Behind front front' (out ++ s) (out' ++ s) := by
  obtain ⟨text, rfl, rfl⟩ := h
  exact ⟨text ++ s, String.append_assoc, String.append_assoc⟩

/-- Runs that go on alike from alike outcomes are alike as a whole. -/
theorem Follows.bind {x y : Except RenderError String} {f g : String → Except RenderError String}
    (h : Follows limit front front' x y)
    (next : ∀ out out', Behind front front' out out' →
      Follows limit front front' (f out) (g out')) :
    Follows limit front front' (x >>= f) (y >>= g) := by
  cases h with
  | tooDeep => exact .tooDeep
  | fault about => exact .fault about
  | done behind => exact next _ _ behind

end Outcomes

namespace Tree

/-! ## Trees that agree -/

/-- Two trees that are the same down to `levels` levels below their roots. -/
def AgreeTo (levels : Nat) (s t : Tree) : Prop := s.cut levels = t.cut levels

section Agree

variable {levels : Nat} {s t : Tree}

@[simp] theorem token_cut (levels : Nat) (t : Tree) : (t.cut levels).token = t.token := by
  cases t with
  | node token children =>
      cases levels with
      | zero => rfl
      | succ levels => rfl

@[simp] theorem children_cut_succ (levels : Nat) (t : Tree) :
    (t.cut (levels + 1)).children = t.children.map (cut levels) := by
  cases t with
  | node token children => rfl

theorem AgreeTo.token (h : AgreeTo levels s t) : s.token = t.token := by
  rw [← token_cut levels s, h, token_cut]

theorem AgreeTo.kind (h : AgreeTo levels s t) : s.kind = t.kind := congrArg Token.kind h.token

/-- Trees that agree in some levels have children that agree in one less. -/
theorem AgreeTo.children (h : AgreeTo (levels + 1) s t) :
    List.Forall₂ (AgreeTo levels) s.children t.children := by
  have parts : s.children.map (cut levels) = t.children.map (cut levels) := by
    rw [← children_cut_succ, h, children_cut_succ]
  rw [← List.forall₂_eq_eq_eq, List.forall₂_map_left_iff, List.forall₂_map_right_iff] at parts
  exact parts

theorem isEmpty_eq_of_forall₂ {R : Tree → Tree → Prop} {ss ts : List Tree}
    (h : List.Forall₂ R ss ts) : ss.isEmpty = ts.isEmpty := by
  cases h with
  | nil => rfl
  | cons => rfl

end Agree

section Runs

variable {limit limit' depth depth' levels : Nat} {front front' out out' : String}
  {t t' : Tree} {x y : Except RenderError String}

/-! ## Checks -/

/-- A second run that has as much room passes each check of the depth that the first one
passes. -/
theorem follows_checkDepth (room : limit + depth' ≤ limit' + depth)
    (next : depth ≤ limit → Follows limit front front' x y) :
    Follows limit front front' (checkDepth limit depth >>= fun _ => x)
      (checkDepth limit' depth' >>= fun _ => y) := by
  rw [checkDepth, checkDepth]
  split
  next => exact .tooDeep
  next within =>
    rw [if_neg (by omega)]
    exact next (Nat.not_lt.mp within)

/-- Leaves that agree pass the check alike. -/
theorem follows_checkLeaf (same : AgreeTo (levels + 1) t t')
    (next : Follows limit front front' x y) :
    Follows limit front front' (checkLeaf t >>= fun _ => x) (checkLeaf t' >>= fun _ => y) := by
  rw [checkLeaf, checkLeaf, same.token, isEmpty_eq_of_forall₂ same.children]
  split
  next => exact next
  next => exact .fault rfl

/-! ## Leaves and lists -/

/-- Values that agree are written alike. -/
theorem follows_writeValue (same : AgreeTo (levels + 1) t t')
    (behind : Behind front front' out out') :
    Follows limit front front' (writeValue t out) (writeValue t' out') := by
  rw [writeValue, writeValue, same.token]
  exact follows_checkLeaf same (.done (behind.append _))

/-- Names that agree are written alike. -/
theorem follows_writeIdentifier (same : AgreeTo (levels + 1) t t')
    (behind : Behind front front' out out') :
    Follows limit front front' (writeIdentifier t out) (writeIdentifier t' out') := by
  rw [writeIdentifier, writeIdentifier, same.token]
  refine follows_checkLeaf same ?_
  split
  next name _ =>
    split
    next => exact .fault rfl
    next => exact .done (behind.append name)
  next => exact .fault rfl

/-- Entries that agree are written alike. -/
theorem follows_writeEntries {list : Token} {entries entries' : List Tree}
    (same : List.Forall₂ (AgreeTo (levels + 1)) entries entries') :
    ∀ {before out out' : String}, Behind front front' out out' →
      Follows limit front front' (writeEntries list before entries out)
        (writeEntries list before entries' out') := by
  induction same with
  | nil =>
      intro before out out' behind
      exact .done behind
  | cons first _ ih =>
      intro before out out' behind
      rw [writeEntries, writeEntries, first.kind]
      split
      next =>
        refine (follows_writeValue first (behind.append before)).bind ?_
        intro out out' behind
        exact ih behind
      next => exact .fault rfl

/-- A list looks at the depth of its entries, and only then at the entries. -/
theorem follows_writeValueList (room : limit + depth' ≤ limit' + depth)
    (reach : limit ≤ depth + levels) (same : AgreeTo (levels + 1) t t')
    (behind : Behind front front' out out') :
    Follows limit front front' (writeValueList limit t depth out)
      (writeValueList limit' t' depth' out') := by
  have entries := same.children
  rw [writeValueList, writeValueList, same.token]
  generalize t.children = ts at entries
  generalize t'.children = ts' at entries
  cases entries with
  | nil => exact .done ((behind.append "(").append ")")
  | cons first rest =>
      refine follows_checkDepth (by omega) fun within => ?_
      -- The entries are within the limit, and so they agree in whether they have subtrees.
      obtain ⟨levels, rfl⟩ : ∃ below, levels = below + 1 := ⟨levels - 1, by omega⟩
      refine (follows_writeEntries (.cons first rest) (behind.append "(")).bind ?_
      intro out out' behind
      exact .done (behind.append ")")

/-! ## Comparisons -/

/-- The kinds of both operands are looked at before their depth. -/
theorem follows_writeComparison {operator : Token} {symbol : String}
    {operands operands' : List Tree} (room : limit + depth' ≤ limit' + depth)
    (reach : limit ≤ depth + levels) (same : List.Forall₂ (AgreeTo levels) operands operands')
    (behind : Behind front front' out out') :
    Follows limit front front' (writeComparison limit operator symbol operands depth out)
      (writeComparison limit' operator symbol operands' depth' out') := by
  match operands, operands', same with
  | [], [], .nil | [_], [_], .cons _ .nil
  | _ :: _ :: _ :: _, _ :: _ :: _ :: _, .cons _ (.cons _ (.cons _ _)) => exact .fault rfl
  | [field, operand], [field', operand'], .cons name (.cons right .nil) =>
      rw [writeComparison, writeComparison, name.kind, right.kind]
      split
      next => exact .fault rfl
      next =>
      split
      next => exact .fault rfl
      next =>
      refine follows_checkDepth (by omega) fun within => ?_
      obtain ⟨levels, rfl⟩ : ∃ below, levels = below + 1 := ⟨levels - 1, by omega⟩
      refine (follows_writeIdentifier name behind).bind ?_
      intro out out' behind
      have behind := ((behind.append " ").append symbol).append " "
      split
      next => exact follows_writeValueList (by omega) (by omega) right behind
      next => exact follows_writeValue right behind

/-! ## Trees -/

mutual

/-- A run follows another one if it has as much room, and if the trees agree down to one level
below the limit. -/
theorem follows_write (t : Tree) {t' : Tree} {depth depth' levels : Nat} {out out' : String}
    (room : limit + depth' ≤ limit' + depth) (reach : limit < depth + levels)
    (same : AgreeTo levels t t') (behind : Behind front front' out out') :
    Follows limit front front' (write limit t depth out) (write limit' t' depth' out') := by
  have root := same.token
  obtain ⟨⟨kind, text⟩, children⟩ := t
  obtain ⟨token', children'⟩ := t'
  cases root
  rw [write.eq_def, write.eq_def]
  refine follows_checkDepth room fun within => ?_
  obtain ⟨levels, rfl⟩ : ∃ below, levels = below + 1 := ⟨levels - 1, by omega⟩
  have reach : limit ≤ depth + levels := by omega
  have parts := same.children
  cases kind with
  | value => exact follows_writeValue same behind
  | valueList => exact follows_writeValueList room reach same behind
  | identifier => exact follows_writeIdentifier same behind
  | and | or =>
      match children, children', parts with
      | [], [], .nil => exact .done (behind.append _)
      | child :: rest, child' :: rest', .cons first others =>
          refine (follows_write child (by omega) (by omega) first (behind.append "(")).bind ?_
          intro out out' behind
          refine (follows_writeRest rest (by omega) (by omega) others behind).bind ?_
          intro out out' behind
          exact .done (behind.append ")")
  | not =>
      match children, children', parts with
      | [], [], .nil | _ :: _ :: _, _ :: _ :: _, .cons _ (.cons _ _) => exact .fault rfl
      | [child], [child'], .cons part .nil =>
          have bracketed : child.isBracketed = child'.isBracketed := by
            rw [isBracketed, isBracketed, part.kind]
          simp only [bracketed]
          split
          next => exact follows_write child (by omega) (by omega) part (behind.append _)
          next =>
            refine (follows_write child (by omega) (by omega) part (behind.append _)).bind ?_
            intro out out' behind
            exact .done (behind.append ")")
  | like => exact .fault rfl
  | _ => exact follows_writeComparison room reach parts behind

/-- Trees that agree are written alike one after the other. -/
theorem follows_writeRest {separator : String} (ts : List Tree) {ts' : List Tree}
    {depth depth' levels : Nat} {out out' : String} (room : limit + depth' ≤ limit' + depth)
    (reach : limit < depth + levels) (same : List.Forall₂ (AgreeTo levels) ts ts')
    (behind : Behind front front' out out') :
    Follows limit front front' (writeRest limit separator ts depth out)
      (writeRest limit' separator ts' depth' out') := by
  match ts, ts', same with
  | [], [], .nil => exact .done behind
  | t :: ts, t' :: ts', .cons first others =>
      rw [writeRest, writeRest]
      refine (follows_write t room reach first (behind.append separator)).bind ?_
      intro out out' behind
      exact follows_writeRest ts room reach others behind

end

end Runs

end Tree

end Metrology.Filter
