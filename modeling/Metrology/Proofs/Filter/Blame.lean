import Metrology.Proofs.Filter.Depth

/-!
# Blame

A tree can have many faults at once, and an error names one of them.  What it names is
real: some node of the tree is to blame for it (`blames_of_render_eq_error`).

The proof goes along with the writing.  A writer that fails tells which node is to blame:
its own node, or one below it that a writer it has called found first.  The depth needs
care.  A shape is looked at only where the depth has been found to be within the limit
before, and so a node that is blamed for its shape stands within the limit.  A list of
values is written without its entries being visited, but it looks at their depth itself.
-/

namespace Metrology.Filter

namespace Tree

/-! ## Nodes and faults -/

/-- In a tree whose root stands at the given depth, a node stands at a depth of its own. -/
inductive StandsAt (s : Tree) (depth : Nat) : Tree → Nat → Prop where
  | root : StandsAt s depth s depth
  | inside {token : Token} {children : List Tree} {child : Tree} {rootDepth : Nat} :
    child ∈ children → StandsAt s depth child (rootDepth + 1) →
      StandsAt s depth (node token children) rootDepth

/-- What is wrong with a node that has a fault. -/
def HasFault (t : Tree) : Fault → Prop
  | .leafWithChildren => (t.kind = .value ∨ t.kind = .identifier) ∧ t.children ≠ []
  | .identifierWithoutName => t.kind = .identifier ∧ ∀ name ∈ t.token.text, name = ""
  | .notOneOperand => t.kind = .not ∧ t.children.length ≠ 1
  | .notTwoOperands => t.kind.isComparison ∧ t.children.length ≠ 2
  | .leftNotIdentifier => t.kind.isComparison ∧
      ∃ field operand, t.children = [field, operand] ∧ field.kind ≠ .identifier
  | .rightNot expected found => t.kind.isComparison ∧ t.kind.operandKind = expected ∧
      ∃ field operand, t.children = [field, operand] ∧ operand.kind = found ∧ found ≠ expected
  | .entryNotValue => t.kind = .valueList ∧ ∃ entry ∈ t.children, entry.kind ≠ .value

/-- A node that stands at the given depth is to blame for an error. -/
def IsBlamed (limit : Nat) (s : Tree) (depth : Nat) : RenderError → Prop
  | .depthExceeded limit' => limit' = limit ∧ limit < depth
  | .unsupportedToken token => s.token = token ∧ s.kind = .like ∧ depth ≤ limit
  | .malformedNode token fault => s.token = token ∧ s.HasFault fault ∧ depth ≤ limit

/-- Some node of a tree is to blame for an error. -/
def Blames (limit : Nat) (t : Tree) (depth : Nat) (e : RenderError) : Prop :=
  ∃ (s : Tree) (sDepth : Nat), s.StandsAt sDepth t depth ∧ s.IsBlamed limit sDepth e

theorem levels_le_levelsOfAll {t : Tree} {ts : List Tree} (mem : t ∈ ts) :
    t.levels ≤ levelsOfAll ts := by
  induction mem with
  | head ts => exact Nat.le_max_left _ _
  | tail s _ ih => exact Nat.le_trans ih (Nat.le_max_right _ _)

/-- A node stands above the last level of its tree. -/
theorem StandsAt.lt_add_levels {s t : Tree} {sDepth depth : Nat} (h : s.StandsAt sDepth t depth) :
    sDepth < depth + t.levels := by
  induction h with
  | root => exact Nat.lt_add_of_pos_right s.levels_pos
  | inside mem _ ih =>
      have below := levels_le_levelsOfAll mem
      rw [levels]
      omega

section Writers

variable {limit depth : Nat} {t child : Tree} {token : Token} {children : List Tree}
  {e : RenderError} {out : String}

theorem IsBlamed.root (h : t.IsBlamed limit depth e) : Blames limit t depth e :=
  ⟨t, depth, .root, h⟩

/-- What is blamed within a child is blamed within its parent. -/
theorem Blames.inside (mem : child ∈ children) (h : Blames limit child (depth + 1) e) :
    Blames limit (node token children) depth e := by
  obtain ⟨s, sDepth, stands, blamed⟩ := h
  exact ⟨s, sDepth, .inside mem stands, blamed⟩

/-! ## What each writer blames -/

/-- A computation in two steps fails in the first one or in the second. -/
theorem eq_error_of_bind_eq_error {α β : Type} {x : Except RenderError α}
    {f : α → Except RenderError β} (h : (x >>= f) = .error e) :
    x = .error e ∨ ∃ a, x = .ok a ∧ f a = .error e := by
  cases x with
  | error e' =>
      cases h
      exact .inl rfl
  | ok a => exact .inr ⟨a, rfl, h⟩

theorem le_of_checkDepth_eq_ok {u : Unit} (h : checkDepth limit depth = .ok u) :
    depth ≤ limit := by
  rw [checkDepth] at h
  split at h
  next => cases h
  next room => exact Nat.not_lt.mp room

/-- Where a depth is too large, the node there is to blame. -/
theorem isBlamed_of_checkDepth_eq_error (h : checkDepth limit depth = .error e) (s : Tree) :
    s.IsBlamed limit depth e := by
  rw [checkDepth] at h
  split at h
  next deep =>
    cases h
    exact ⟨rfl, deep⟩
  next => cases h

/-- Where a leaf has children, it is to blame. -/
theorem isBlamed_of_checkLeaf_eq_error (leaf : t.kind = .value ∨ t.kind = .identifier)
    (room : depth ≤ limit) (h : checkLeaf t = .error e) : t.IsBlamed limit depth e := by
  rw [checkLeaf] at h
  split at h
  next => cases h
  next children =>
    cases h
    exact ⟨rfl, ⟨leaf, fun none => children (List.isEmpty_iff.mpr none)⟩, room⟩

/-- If a value cannot be written, it is to blame. -/
theorem isBlamed_of_writeValue_eq_error (kind : t.kind = .value) (room : depth ≤ limit)
    (h : writeValue t out = .error e) : t.IsBlamed limit depth e := by
  rcases eq_error_of_bind_eq_error h with leaf | ⟨_, -, h⟩
  · exact isBlamed_of_checkLeaf_eq_error (.inl kind) room leaf
  · cases h

/-- If a name cannot be written, it is to blame. -/
theorem isBlamed_of_writeIdentifier_eq_error (kind : t.kind = .identifier) (room : depth ≤ limit)
    (h : writeIdentifier t out = .error e) : t.IsBlamed limit depth e := by
  rcases eq_error_of_bind_eq_error h with leaf | ⟨_, -, h⟩
  · exact isBlamed_of_checkLeaf_eq_error (.inr kind) room leaf
  · split at h
    next name text =>
      split at h
      next empty =>
        cases h
        refine ⟨rfl, ⟨kind, ?_⟩, room⟩
        rw [text]
        rintro name ⟨⟩
        exact String.isEmpty_iff.mp empty
      next => cases h
    next text =>
      cases h
      refine ⟨rfl, ⟨kind, ?_⟩, room⟩
      rw [text]
      intro name mem
      cases mem

/-- A list of values is to blame for an entry of another kind, and an entry that is a value is to
blame for its own subtrees. -/
theorem blame_of_writeEntries_eq_error {list : Token} : ∀ {entries : List Tree}
    {before out : String}, writeEntries list before entries out = .error e →
      (e = .malformedNode list .entryNotValue ∧ ∃ entry ∈ entries, entry.kind ≠ .value) ∨
        ∃ entry ∈ entries, entry.kind = .value ∧ ∃ out, writeValue entry out = .error e
  | [], _, _, h => by cases h
  | entry :: entries, before, out, h => by
      rw [writeEntries] at h
      split at h
      next kind =>
        rcases eq_error_of_bind_eq_error h with first | ⟨_, -, rest⟩
        · exact .inr ⟨entry, List.mem_cons_self, kind, _, first⟩
        · rcases blame_of_writeEntries_eq_error rest with ⟨same, other, mem, kind⟩ |
            ⟨other, mem, fails⟩
          · exact .inl ⟨same, other, List.mem_cons_of_mem entry mem, kind⟩
          · exact .inr ⟨other, List.mem_cons_of_mem entry mem, fails⟩
      next kind =>
        cases h
        exact .inl ⟨rfl, entry, List.mem_cons_self, kind⟩

/-- If a list of values cannot be written, it or an entry is to blame. -/
theorem blames_of_writeValueList_eq_error (kind : token.kind = .valueList) (room : depth ≤ limit)
    (h : writeValueList limit (node token children) depth out = .error e) :
    Blames limit (node token children) depth e := by
  have entries (room' : children ≠ [] → depth + 1 ≤ limit) {out : String}
      (h : (writeEntries token "" children out >>= fun out => .ok (out ++ ")")) = .error e) :
      Blames limit (node token children) depth e := by
    rcases eq_error_of_bind_eq_error h with h | ⟨_, -, h⟩
    · rcases blame_of_writeEntries_eq_error h with ⟨rfl, other⟩ | ⟨entry, mem, value, _, h⟩
      · exact IsBlamed.root ⟨rfl, ⟨kind, other⟩, room⟩
      · have room'' := room' (List.ne_nil_of_mem mem)
        exact .inside mem (isBlamed_of_writeValue_eq_error value room'' h).root
    · cases h
  rw [writeValueList] at h
  split at h
  next none => exact entries (fun some => absurd (List.isEmpty_iff.mp none) some) h
  next some =>
    rcases eq_error_of_bind_eq_error h with deep | ⟨_, room', h⟩
    · -- The entries stand too deep, and any of them can be blamed.
      cases children with
      | nil => exact absurd rfl some
      | cons entry entries =>
          exact .inside List.mem_cons_self (isBlamed_of_checkDepth_eq_error deep entry).root
    · exact entries (fun _ => le_of_checkDepth_eq_ok room') h

/-- If a comparison cannot be written, it or one of its operands is to blame. -/
theorem blames_of_writeComparison_eq_error {symbol : String} (kind : token.kind.isComparison)
    (room : depth ≤ limit)
    (h : writeComparison limit token symbol children depth out = .error e) :
    Blames limit (node token children) depth e := by
  have root {fault : Fault} (wrong : (node token children).HasFault fault) :
      Blames limit (node token children) depth (.malformedNode token fault) :=
    IsBlamed.root ⟨rfl, wrong, room⟩
  match children, h with
  | [], h | [_], h | _ :: _ :: _ :: _, h =>
      cases h
      exact root ⟨kind, by simp [Tree.children]⟩
  | [field, operand], h =>
      have first : field ∈ [field, operand] := List.mem_cons_self
      have second : operand ∈ [field, operand] := List.mem_cons_of_mem field List.mem_cons_self
      rw [writeComparison] at h
      split at h
      next other =>
        cases h
        exact root ⟨kind, field, operand, rfl, other⟩
      next identifier =>
      split at h
      next other =>
        cases h
        exact root ⟨kind, rfl, field, operand, rfl, rfl, other⟩
      next same =>
      rcases eq_error_of_bind_eq_error h with deep | ⟨_, room', h⟩
      · exact .inside first (isBlamed_of_checkDepth_eq_error deep field).root
      have room' := le_of_checkDepth_eq_ok room'
      rcases eq_error_of_bind_eq_error h with name | ⟨_, -, h⟩
      · have identifier := Decidable.not_not.mp identifier
        exact .inside first (isBlamed_of_writeIdentifier_eq_error identifier room' name).root
      refine .inside second ?_
      split at h
      next list =>
        cases operand with
        | node token children => exact blames_of_writeValueList_eq_error list room' h
      next one =>
        have value := Decidable.not_not.mp same
        rw [operandKind_of_ne (value ▸ one)] at value
        exact (isBlamed_of_writeValue_eq_error value room' h).root

/-! ## What a whole tree blames -/

mutual

/-- A tree that is not written has a node to blame. -/
theorem blames_of_write_eq_error (t : Tree) {depth : Nat} {out : String} {e : RenderError}
    (h : write limit t depth out = .error e) : Blames limit t depth e := by
  obtain ⟨token, children⟩ := t
  rw [write.eq_def] at h
  rcases eq_error_of_bind_eq_error h with deep | ⟨_, room, h⟩
  · exact (isBlamed_of_checkDepth_eq_error deep _).root
  have room := le_of_checkDepth_eq_ok room
  obtain ⟨kind, text⟩ := token
  cases kind with
  | value => exact (isBlamed_of_writeValue_eq_error rfl room h).root
  | valueList => exact blames_of_writeValueList_eq_error rfl room h
  | identifier => exact (isBlamed_of_writeIdentifier_eq_error rfl room h).root
  | and | or =>
      cases children with
      | nil => cases h
      | cons child rest =>
          rcases eq_error_of_bind_eq_error h with first | ⟨_, -, h⟩
          · exact .inside List.mem_cons_self (blames_of_write_eq_error child first)
          · rcases eq_error_of_bind_eq_error h with others | ⟨_, -, h⟩
            · obtain ⟨part, mem, blames⟩ := blames_of_writeRest_eq_error rest others
              exact .inside (List.mem_cons_of_mem child mem) blames
            · cases h
  | not =>
      match children, h with
      | [], h | _ :: _ :: _, h =>
          cases h
          exact IsBlamed.root ⟨rfl, ⟨rfl, by simp [Tree.children]⟩, room⟩
      | [child], h =>
          have part : ∃ out, write limit child (depth + 1) out = .error e := by
            simp only at h
            split at h
            next => exact ⟨_, h⟩
            next =>
              rcases eq_error_of_bind_eq_error h with part | ⟨_, -, h⟩
              · exact ⟨_, part⟩
              · cases h
          obtain ⟨_, part⟩ := part
          exact .inside List.mem_cons_self (blames_of_write_eq_error child part)
  | like =>
      cases h
      exact IsBlamed.root ⟨rfl, rfl, room⟩
  | _ => exact blames_of_writeComparison_eq_error rfl room h

/-- If trees in a row cannot be written, something within one of them is to blame. -/
theorem blames_of_writeRest_eq_error {separator : String} (ts : List Tree) {depth : Nat}
    {out : String} {e : RenderError} (h : writeRest limit separator ts depth out = .error e) :
    ∃ t ∈ ts, Blames limit t depth e := by
  cases ts with
  | nil => cases h
  | cons t ts =>
      rw [writeRest] at h
      rcases eq_error_of_bind_eq_error h with first | ⟨_, -, others⟩
      · exact ⟨t, List.mem_cons_self, blames_of_write_eq_error t first⟩
      · obtain ⟨t', mem, blames⟩ := blames_of_writeRest_eq_error ts others
        exact ⟨t', List.mem_cons_of_mem t mem, blames⟩

end

end Writers

/-- An error of a tree is about the tree.  If it is the depth, the tree is too deep.  If it is a
token or a shape, a node within the limit has this token, and the fault that is named. -/
theorem blames_of_render_eq_error {config : RenderConfig} {t : Tree} {e : RenderError}
    (h : t.render config = .error e) :
    match e with
    | .depthExceeded limit => limit = config.maxDepth ∧ config.maxDepth < t.depth
    | .unsupportedToken token => ∃ (s : Tree) (depth : Nat), s.StandsAt depth t 1 ∧
        depth ≤ config.maxDepth ∧ s.token = token ∧ s.kind = .like
    | .malformedNode token fault => ∃ (s : Tree) (depth : Nat), s.StandsAt depth t 1 ∧
        depth ≤ config.maxDepth ∧ s.token = token ∧ s.HasFault fault := by
  obtain ⟨s, depth, stands, blamed⟩ := blames_of_write_eq_error t h
  cases e with
  | depthExceeded limit =>
      obtain ⟨same, deep⟩ := blamed
      have reach := stands.lt_add_levels
      rw [depth_eq_levels]
      exact ⟨same, by omega⟩
  | unsupportedToken token =>
      obtain ⟨same, like, room⟩ := blamed
      exact ⟨s, depth, stands, room, same, like⟩
  | malformedNode token fault =>
      obtain ⟨same, wrong, room⟩ := blamed
      exact ⟨s, depth, stands, room, same, wrong⟩

/-- Here a comparison without a field is blamed.  It comes before a negation of nothing, and its
shape is looked at before its operands, which are too deep. -/
theorem blames_of_render_eq_error_comparison :
    (ofAnd [node ⟨.equal, none⟩ [ofValue none, node ⟨.like, none⟩ []],
        node ⟨.not, none⟩ []]).render ⟨2⟩ =
      .error (.malformedNode ⟨.equal, none⟩ .leftNotIdentifier) ∧
    ∃ (s : Tree) (depth : Nat), s.StandsAt depth
        (ofAnd [node ⟨.equal, none⟩ [ofValue none, node ⟨.like, none⟩ []],
          node ⟨.not, none⟩ []]) 1 ∧
      depth ≤ 2 ∧ s.token = ⟨.equal, none⟩ ∧ s.HasFault .leftNotIdentifier := by
  have error : (ofAnd [node ⟨.equal, none⟩ [ofValue none, node ⟨.like, none⟩ []],
      node ⟨.not, none⟩ []]).render ⟨2⟩ =
    .error (.malformedNode ⟨.equal, none⟩ .leftNotIdentifier) := rfl
  exact ⟨error, blames_of_render_eq_error error⟩

end Tree

end Metrology.Filter
