import Mathlib
import ResultLint.Proofs.Dispatch
import ResultLint.Proofs.ResultTypes

/-!
# What a statement discards

An expression statement discards the value of its expression, and with it the values of some of its
parts: of all operands of a sequence, of what is behind `void`, and of the branches of a conditional
and the operands of a logical expression that are Results themselves.  The search for a dropped
Result goes through these expressions and stops at the first that makes one.

* `droppedParts`, `Discards`: what is discarded with an expression, in one step and in the end.
* `witness?`: which Result an expression makes by itself.
* `dropOrder`: all that is discarded, parents first; `mem_dropOrder_iff`.
* `droppedWithin_eq`: **the search finds the first witness in this order.**
* `discards_reported`: a statement is reported if it discards a witness.
-/

namespace ResultLint

open Relation (ReflTransGen)

/-! ## Chains -/

namespace Tree

variable {t : Tree}

theorem reaches_skipChainWithin (steps : Nat) (id : NodeId) :
    t.Reaches id (t.skipChainWithin steps id) := by
  induction steps generalizing id with
  | zero => exact .refl
  | succ steps ih =>
    rw [skipChainWithin]
    split
    next expression hk => exact .head (child_of_kind? hk (.chainExpression expression)) (ih _)
    next => exact .refl

theorem reaches_skipChain (id : NodeId) : t.Reaches id (t.skipChain id) :=
  reaches_skipChainWithin _ id

end Tree

/-- The value is not made here: an assignment keeps it, a sequence and `void` discard those of their
parts whatever they are themselves. -/
def NodeKind.passesOn : NodeKind → Bool
  | assignment _ _ _ => true
  | sequence _ => true
  | unary .void _ => true
  | _ => false

/-- Expressions that make the value they have. -/
def NodeKind.makesValue : NodeKind → Bool
  | call _ _ _ => true
  | construct _ _ => true
  | member _ _ _ => true
  | identifier _ => true
  | _ => false

namespace Floating

variable {c : Context}

/-! ## Discarded expressions -/

/-- The expression is sometimes a Result, and no array of Results. -/
def isLoneResult (c : Context) (n : NodeId) : Bool :=
  c.isSometimesResult n && !c.isResultArrayOrTuple n

/-- What is discarded right with an expression, in the order of the search: of a conditional, which
must be a Result itself, the second branch comes first. -/
def droppedParts (c : Context) (e : NodeId) : List NodeId :=
  match c.tree.kind? (c.tree.skipChain e) with
  | some (.sequence expressions) => expressions
  | some (.unary .void argument) => [argument]
  | some (.conditional _ consequent alternate) =>
    if isLoneResult c (c.tree.skipChain e) then [alternate, consequent] else []
  | some (.logical _ left right) =>
    if isLoneResult c (c.tree.skipChain e) then [left, right] else []
  | _ => []

/-- What is discarded with an expression: the expression, and what is discarded with the parts. -/
def Discards (c : Context) : NodeId → NodeId → Prop :=
  ReflTransGen fun e f => f ∈ droppedParts c e

/-- The Result that an expression makes by itself. -/
def witness? (c : Context) (e : NodeId) : Option Dropped :=
  (c.tree.kind? (c.tree.skipChain e)).bind fun kind =>
    if kind.passesOn then none
    else if c.isResultArrayOrTuple (c.tree.skipChain e) then some .resultArray
    else if c.isSometimesResult (c.tree.skipChain e) && kind.makesValue then some .result
    else none

/-- Parts of a node, or of the node in a chain. -/
theorem reaches_of_mem_droppedParts {e f : NodeId} (h : f ∈ droppedParts c e) :
    ∃ n, c.tree.Reaches e n ∧ c.tree.Child n f := by
  refine ⟨_, c.tree.reaches_skipChain e, ?_⟩
  rw [droppedParts] at h
  split at h
  next hk => exact Tree.child_of_kind? hk (.sequenceItem h)
  next hk =>
    rw [List.mem_singleton.1 h]
    exact Tree.child_of_kind? hk (.unaryArgument _ _)
  next test consequent alternate hk =>
    split at h
    · rcases List.mem_cons.1 h with rfl | h
      · exact Tree.child_of_kind? hk (.conditionalAlternate _ _ _)
      · rw [List.mem_singleton.1 h]
        exact Tree.child_of_kind? hk (.conditionalConsequent _ _ _)
    · simp at h
  next operator left right hk =>
    split at h
    · rcases List.mem_cons.1 h with rfl | h
      · exact Tree.child_of_kind? hk (.logicalLeft _ _ _)
      · rw [List.mem_singleton.1 h]
        exact Tree.child_of_kind? hk (.logicalRight _ _ _)
    · simp at h
  next => simp at h

theorem index_lt_of_mem_droppedParts (h : c.tree.Ordered) {e f : NodeId}
    (hf : f ∈ droppedParts c e) : f.index < e.index := by
  obtain ⟨n, hn, hnf⟩ := reaches_of_mem_droppedParts hf
  have hle := h.index_le_of_reaches hn
  have hlt := h.index_lt hnf
  omega

/-- All that is discarded with an expression, each expression in front of its parts. -/
def dropOrder (c : Context) (e : NodeId) : List NodeId :=
  e :: (droppedParts c e).flatMap fun f => if f.index < e.index then dropOrder c f else []
termination_by e.index

theorem dropOrder_eq (h : c.tree.Ordered) (e : NodeId) :
    dropOrder c e = e :: (droppedParts c e).flatMap (dropOrder c) := by
  have hparts : ∀ f ∈ droppedParts c e,
      (if f.index < e.index then dropOrder c f else []) = dropOrder c f := by
    intro f hf
    rw [if_pos (index_lt_of_mem_droppedParts h hf)]
  rw [dropOrder, List.flatMap_congr hparts]

theorem mem_dropOrder_iff (h : c.tree.Ordered) {e f : NodeId} :
    f ∈ dropOrder c e ↔ Discards c e f := by
  have hall : ∀ depth (e : NodeId), e.index < depth → (f ∈ dropOrder c e ↔ Discards c e f) := by
    intro depth
    induction depth with
    | zero =>
      intro e he
      omega
    | succ depth ih =>
      intro e he
      rw [dropOrder_eq h, List.mem_cons, List.mem_flatMap]
      constructor
      · rintro (rfl | ⟨part, hpart, hf⟩)
        · exact .refl
        · have hlt := index_lt_of_mem_droppedParts h hpart
          exact .head hpart ((ih part (by omega)).1 hf)
      · intro hf
        rcases hf.cases_head with rfl | ⟨part, hpart, hf⟩
        · exact Or.inl rfl
        · have hlt := index_lt_of_mem_droppedParts h hpart
          exact Or.inr ⟨part, hpart, (ih part (by omega)).2 hf⟩
  exact hall (e.index + 1) e (by omega)

/-! ## The search -/

theorem findSome?_pair {α β : Type} (f : α → Option β) (a b : α) :
    [a, b].findSome? f = (f a).or (f b) := by
  rw [List.findSome?_cons, List.findSome?_singleton]
  cases f a <;> rfl

/-- **One step of the search**: the expression itself, then its parts in their order. -/
theorem droppedWithin_succ (c : Context) (depth : Nat) (e : NodeId) :
    droppedWithin c (depth + 1) e =
      (witness? c e).or ((droppedParts c e).findSome? (droppedWithin c depth)) := by
  rw [droppedWithin, witness?, droppedParts, isLoneResult]
  cases hk : c.tree.kind? (c.tree.skipChain e) with
  | none => rfl
  | some kind =>
    generalize c.isResultArrayOrTuple (c.tree.skipChain e) = array
    generalize c.isSometimesResult (c.tree.skipChain e) = sometimes
    cases kind with
    | assignment operator left right => rfl
    | sequence expressions => rfl
    | unary operator argument =>
      cases operator with
      | void => exact (List.findSome?_singleton).symm
      | _ => cases array <;> cases sometimes <;> rfl
    | conditional test consequent alternate =>
      cases array <;> cases sometimes <;> first | rfl | exact (findSome?_pair _ _ _).symm
    | logical operator left right =>
      cases array <;> cases sometimes <;> first | rfl | exact (findSome?_pair _ _ _).symm
    | _ => cases array <;> cases sometimes <;> rfl

/-- A search part by part is a search through all parts. -/
theorem findSome?_eq_flatMap {α β γ : Type} {f : β → Option γ} {g : α → List β}
    {search : α → Option γ} {l : List α} (h : ∀ a ∈ l, search a = (g a).findSome? f) :
    l.findSome? search = (l.flatMap g).findSome? f := by
  induction l with
  | nil => rfl
  | cons a l ih =>
    rw [List.flatMap_cons, List.findSome?_append, List.findSome?_cons, h a List.mem_cons_self,
      ih fun b hb => h b (List.mem_cons_of_mem a hb)]
    cases (g a).findSome? f <;> rfl

/-- **The search finds the first witness in the order of what is discarded.** -/
theorem droppedWithin_eq (h : c.tree.Ordered) {depth : Nat} {e : NodeId}
    (hdepth : e.index < depth) :
    droppedWithin c depth e = (dropOrder c e).findSome? (witness? c) := by
  induction depth generalizing e with
  | zero => omega
  | succ depth ih =>
    have hparts : ∀ f ∈ droppedParts c e,
        droppedWithin c depth f = (dropOrder c f).findSome? (witness? c) := by
      intro f hf
      have hlt := index_lt_of_mem_droppedParts h hf
      exact ih (by omega)
    rw [droppedWithin_succ, findSome?_eq_flatMap hparts, dropOrder_eq h, List.findSome?_cons]
    cases witness? c e <;> rfl

/-! ## Statements -/

/-- The kind of diagnostic for what is dropped. -/
def Dropped.kind : Dropped → DiagnosticKind
  | result => .floating
  | resultArray => .floatingResultArray

theorem Dropped.node_report (c : Context) (s : NodeId) (k : Dropped) : (k.report c s).node = s := by
  cases k <;> rfl

theorem Dropped.kind_report (c : Context) (s : NodeId) (k : Dropped) :
    (k.report c s).kind = k.kind := by
  cases k <;> rfl

/-- A statement is reported for the first witness that it discards. -/
theorem checkStatement_eq (h : c.program.Valid) {s e : NodeId}
    (hs : c.tree.kind? s = some (.expressionStatement e)) :
    Rule.floating.checkStatement c s =
      pure ((((dropOrder c e).findSome? (witness? c)).map (·.report c s)).toList) := by
  obtain ⟨node, hn, _⟩ := Option.map_eq_some_iff.1 hs
  have hsize := Tree.index_lt_size hn
  have hlt := h.ordered.index_lt (Tree.child_of_kind? hs (.statementExpression e))
  change pure (checkStatement c s) = _
  rw [checkStatement, hs]
  dsimp only
  rw [dropped?, droppedWithin_eq h.ordered (by omega)]

/-- **A statement is reported exactly if it discards a witness.**  It is then reported once, on
itself, as the kind of the first witness in depth-first order. -/
theorem discards_reported (h : c.program.validate = .ok ()) {s e : NodeId}
    (hs : c.tree.kind? s = some (.expressionStatement e)) :
    (∀ n, dropOrder c n = n :: (droppedParts c n).flatMap (dropOrder c)) ∧
    (∀ n, n ∈ dropOrder c e ↔ Discards c e n) ∧
    ((∃ w, Discards c e w ∧ (witness? c w).isSome = true) →
      ∃ before w after k d, dropOrder c e = before ++ w :: after ∧
        (∀ b ∈ before, witness? c b = none) ∧ witness? c w = some k ∧
        Rule.floating.checkStatement c s = pure [d] ∧ d.node = s ∧ d.kind = k.kind) ∧
    ((¬ ∃ w, Discards c e w ∧ (witness? c w).isSome = true) →
      Rule.floating.checkStatement c s = pure []) := by
  have h : c.program.Valid := Program.validate_eq_ok_iff.1 h
  have hmem : ∀ n, n ∈ dropOrder c e ↔ Discards c e n := fun n => mem_dropOrder_iff h.ordered
  refine ⟨dropOrder_eq h.ordered, hmem, fun hsome => ?_, fun hnone => ?_⟩
  · cases hfound : (dropOrder c e).findSome? (witness? c) with
    | none =>
      obtain ⟨w, hw, hwitness⟩ := hsome
      rw [List.findSome?_eq_none_iff.1 hfound w ((hmem w).2 hw)] at hwitness
      cases hwitness
    | some k =>
      obtain ⟨before, w, after, horder, hw, hbefore⟩ := List.findSome?_eq_some_iff.1 hfound
      refine ⟨before, w, after, k, k.report c s, horder, hbefore, hw, ?_, k.node_report c s,
        k.kind_report c s⟩
      rw [checkStatement_eq h hs, hfound]
      rfl
  · have hfound : (dropOrder c e).findSome? (witness? c) = none := by
      refine List.findSome?_eq_none_iff.2 fun w hw => ?_
      cases hwitness : witness? c w with
      | none => rfl
      | some k => exact absurd ⟨w, (hmem w).1 hw, by rw [hwitness]; rfl⟩ hnone
    rw [checkStatement_eq h hs, hfound]
    rfl

/-- `x = a, void (a ? b : bs), b;` and then `x = a;`, where all names are Results but `bs`, which is
an array of them. -/
def discardsProgram : Program :=
  ⟨⟨Classifier.recursiveTable.entries ++ #[.array ⟨10⟩]⟩, ⟨#[
    { kind := .identifier "x", type := some ⟨10⟩ },
    { kind := .identifier "a", type := some ⟨10⟩ },
    { kind := .assignment "=" ⟨0⟩ ⟨1⟩, type := some ⟨10⟩ },
    { kind := .identifier "a", type := some ⟨10⟩ },
    { kind := .identifier "b", type := some ⟨12⟩ },
    { kind := .identifier "bs", type := some ⟨14⟩ },
    { kind := .conditional ⟨3⟩ ⟨4⟩ ⟨5⟩, type := some ⟨12⟩ },
    { kind := .chain ⟨6⟩, type := some ⟨12⟩ },
    { kind := .unary .void ⟨7⟩, type := some ⟨3⟩ },
    { kind := .identifier "b", type := some ⟨12⟩ },
    { kind := .sequence [⟨2⟩, ⟨8⟩, ⟨9⟩], type := some ⟨12⟩ },
    { kind := .expressionStatement ⟨10⟩ },
    { kind := .identifier "x", type := some ⟨10⟩ },
    { kind := .identifier "a", type := some ⟨10⟩ },
    { kind := .assignment "=" ⟨12⟩ ⟨13⟩, type := some ⟨10⟩ },
    { kind := .expressionStatement ⟨14⟩ },
    { kind := .program [⟨11⟩, ⟨15⟩] }], ⟨16⟩⟩⟩

/-- The first statement discards `bs` before both `b`, and the second one hands its Result over. -/
theorem discards_reported_branches :
    discardsProgram.validate = .ok () ∧
    (∃ d, Rule.floating.checkStatement ⟨discardsProgram, {}⟩ ⟨11⟩ = pure [d] ∧ d.node = ⟨11⟩ ∧
      d.kind = .floatingResultArray) ∧
    Rule.floating.checkStatement ⟨discardsProgram, {}⟩ ⟨15⟩ = pure [] := by
  have hvalid : discardsProgram.validate = .ok () := rfl
  obtain ⟨_, hmem, hfound, _⟩ :=
    discards_reported (c := ⟨discardsProgram, {}⟩) hvalid (s := ⟨11⟩) (e := ⟨10⟩) rfl
  obtain ⟨_, hmem', _, hnone⟩ :=
    discards_reported (c := ⟨discardsProgram, {}⟩) hvalid (s := ⟨15⟩) (e := ⟨14⟩) rfl
  have horder : dropOrder ⟨discardsProgram, {}⟩ ⟨10⟩ =
      [⟨10⟩, ⟨2⟩, ⟨8⟩, ⟨7⟩, ⟨5⟩, ⟨4⟩, ⟨9⟩] := by cbv
  have horder' : dropOrder ⟨discardsProgram, {}⟩ ⟨14⟩ = [⟨14⟩] := by cbv
  rw [horder] at hmem hfound
  rw [horder'] at hmem'
  refine ⟨hvalid, ?_, hnone ?_⟩
  · obtain ⟨before, w, after, k, d, hsplit, hbefore, hw, hd, hnode, hkind⟩ :=
      hfound ⟨⟨5⟩, (hmem ⟨5⟩).1 (by decide), by cbv⟩
    have hfirst := List.findSome?_eq_some_iff.2 ⟨before, w, after, hsplit, hw, hbefore⟩
    have harray : [⟨10⟩, ⟨2⟩, ⟨8⟩, ⟨7⟩, ⟨5⟩, ⟨4⟩, (⟨9⟩ : NodeId)].findSome?
        (witness? ⟨discardsProgram, {}⟩) = some .resultArray := by cbv
    cases Option.some.inj (hfirst.symm.trans harray)
    exact ⟨d, hd, hnode, hkind⟩
  · rintro ⟨w, hw, hsome⟩
    rw [List.mem_singleton.1 ((hmem' w).2 hw)] at hsome
    have hassigned : witness? ⟨discardsProgram, {}⟩ ⟨14⟩ = none := by cbv
    rw [hassigned] at hsome
    cases hsome

end Floating

end ResultLint
