import Mathlib
import ResultLint.Proofs.Arguments
import ResultLint.Proofs.Interning
import ResultLint.Proofs.Translation.Programs

/-!
# Growing tables

Interning only adds entries.  In a well-formed table nothing leads out of the table, so whatever is
asked about one of its types is answered within it, and entries that are added later are never met,
even if they mention numbers that are not in use yet.

* `Extends.translates`, `Extends.alike`: a table that has all entries of a well-formed one, and any
  others, has an entry like each of them under the same number.
* `Extends.verdicts_eq`, `Extends.voidArguments_eq`: **the classifier judges old types as before.**
* `Program.translates_withTypes`: a program goes over to a larger table as it is.
* `growth_conservative`: **interning changes no answer about types that are in the table, and no
  calls change the report on a valid program.**
-/

namespace ResultLint

namespace TypeTable.Extends

variable {t u : TypeTable} (h : t.Extends u) (ht : t.WellFormed)

include h

/-- Each entry is like itself. -/
theorem alike : t.Alike Eq u :=
  ⟨fun hty => ⟨_, h.entry hty, .refl (fun _ => rfl) _⟩⟩

include ht

/-- Each entry keeps its number. -/
theorem translates : t.Translates id u where
  unknown := ht.primitive .unknown
  fixed := rfl
  entry hty := by rw [Ty.map_id]; exact h.entry hty
  injective _ _ heq := heq
  mentioned hty hr := Or.inl (ht.mentioned hty hr)

theorem mirrors (shape : ResultShape) :
    Classifier.Mirrors id (t.Known id) ⟨t, shape⟩ ⟨u, shape⟩ :=
  .of_translates (h.translates ht) shape

variable {x : TypeId} (hx : t.contains x = true)

include hx

theorem apparentType_eq : u.apparentType x = t.apparentType x :=
  (h.translates ht).apparentType_eq (Or.inl hx)

theorem unionMembers_eq : u.unionMembers x = t.unionMembers x := h.alike.unionMembers_eq ht hx

theorem apparentMembers_eq : u.apparentMembers x = t.apparentMembers x :=
  h.alike.apparentMembers_eq ht hx

theorem display_eq : u.display x = t.display x := (h.translates ht).display_eq (Or.inl hx)

/-- **All verdicts on an old type are as before.** -/
theorem verdicts_eq (shape : ResultShape) :
    (⟨u, shape⟩ : Classifier).isSometimesResult x = (⟨t, shape⟩ : Classifier).isSometimesResult x ∧
    (⟨u, shape⟩ : Classifier).isAlwaysResult x = (⟨t, shape⟩ : Classifier).isAlwaysResult x ∧
    (⟨u, shape⟩ : Classifier).isResultArrayOrTuple x =
      (⟨t, shape⟩ : Classifier).isResultArrayOrTuple x ∧
    (⟨u, shape⟩ : Classifier).isResultReturning x = (⟨t, shape⟩ : Classifier).isResultReturning x ∧
    (⟨u, shape⟩ : Classifier).isVoidReturning x = (⟨t, shape⟩ : Classifier).isVoidReturning x := by
  have hmirrors := h.mirrors ht shape
  have hknown : t.Known id x := Or.inl hx
  exact ⟨hmirrors.isSometimesResult_eq hknown, hmirrors.isAlwaysResult_eq hknown,
    hmirrors.isResultArrayOrTuple_eq hknown, hmirrors.isResultReturning_eq hknown,
    hmirrors.isVoidReturning_eq hknown⟩

/-- The positions are listed in ascending order, so it is enough that they are the same ones. -/
theorem voidArguments_eq (shape : ResultShape) (kind : CallKind) (count : Option Nat) :
    (⟨u, shape⟩ : Classifier).voidArguments x kind count =
      (⟨t, shape⟩ : Classifier).voidArguments x kind count :=
  (Classifier.voidArguments_ascending _ _ _ _).eq_of_mem_iff
    (Classifier.voidArguments_ascending _ _ _ _) fun _ =>
      (h.mirrors ht shape).mem_voidArguments_iff (Or.inl hx)

end TypeTable.Extends

/-! ## Programs -/

theorem Node.map_id (node : Node) : node.map id id = node := by
  rw [Node.map, NodeKind.map_id, Option.map_id]
  rfl

namespace Program

/-- The program with another table. -/
def withTypes (p : Program) (types : TypeTable) : Program := { p with types }

variable {p : Program} {u : TypeTable}

/-- **A valid program goes over to a larger table as it is.** -/
theorem translates_withTypes (hp : p.Valid) (h : p.types.Extends u) :
    p.Translates id id (p.withTypes u) where
  types := h.translates hp.types
  root := rfl
  size := rfl
  injective := Function.injective_id
  node n := by
    show p.tree.get? n = _
    rw [funext Node.map_id, Option.map_id']
  type hn hr := Or.inl (hp.type hn hr)
  contextualType hn hr := Or.inl (hp.contextualType hn hr)

theorem lint_withTypes (hp : p.Valid) (h : p.types.Extends u) (config : Config) :
    config.lint (p.withTypes u) = config.lint p :=
  ((p.translates_withTypes hp h).lint_eq config).trans (List.map_id _)

end Program

/-- **Growing a table is conservative.**  Whatever is asked about a type of a well-formed table has
the same answer after a further type is interned, even one that mentions numbers outside the table.
So the report on a valid program stays the same, whatever else is interned. -/
theorem growth_conservative :
    (∀ t : TypeTable, t.WellFormed → ∀ (ty : Ty) (x : TypeId), t.contains x = true →
      let u := (t.intern ty).2
      u.apparentType x = t.apparentType x ∧
      u.unionMembers x = t.unionMembers x ∧
      u.apparentMembers x = t.apparentMembers x ∧
      u.display x = t.display x ∧
      ∀ shape : ResultShape,
        let c : Classifier := ⟨t, shape⟩
        let d : Classifier := ⟨u, shape⟩
        d.isSometimesResult x = c.isSometimesResult x ∧
        d.isAlwaysResult x = c.isAlwaysResult x ∧
        d.isResultArrayOrTuple x = c.isResultArrayOrTuple x ∧
        d.isResultReturning x = c.isResultReturning x ∧
        d.isVoidReturning x = c.isVoidReturning x ∧
        ∀ kind count, d.voidArguments x kind count = c.voidArguments x kind count) ∧
    ∀ p : Program, p.validate = .ok () → ∀ (cs : List TypeCall) (config : Config),
      config.lint (p.withTypes (p.types.calls cs)) = config.lint p := by
  refine ⟨fun t ht ty x hx => ?_, fun p hp cs config => ?_⟩
  · intro u
    have h : t.Extends u := t.extends_intern ty
    refine ⟨h.apparentType_eq ht hx, h.unionMembers_eq ht hx, h.apparentMembers_eq ht hx,
      h.display_eq ht hx, fun shape => ?_⟩
    obtain ⟨hsometimes, halways, harray, hresult, hvoid⟩ := h.verdicts_eq ht hx shape
    exact ⟨hsometimes, halways, harray, hresult, hvoid, h.voidArguments_eq ht hx shape⟩
  · exact p.lint_withTypes (Program.validate_eq_ok_iff.1 hp) (p.types.extends_calls cs) config

/-- `r; rs;` with a Result and an array of Results. -/
def resultsProgram : Program :=
  ⟨⟨TypeTable.primitives.entries ++ #[
      .literal (.string "success"),
      .object { properties := [⟨"tag", ⟨9⟩⟩, ⟨"success", ⟨7⟩⟩] },
      .array ⟨10⟩]⟩,
    ⟨#[
      { kind := .identifier "r", type := some ⟨10⟩ },
      { kind := .expressionStatement ⟨0⟩ },
      { kind := .identifier "rs", type := some ⟨11⟩ },
      { kind := .expressionStatement ⟨2⟩ },
      { kind := .program [⟨1⟩, ⟨3⟩] }], ⟨4⟩⟩⟩

/-- A union with a number that is not in use yet, a parameter that is its own constraint, and an
array that is there already. -/
def laterTypes : List TypeCall :=
  [.union [⟨10⟩, ⟨40⟩], .parameter "T" (some ⟨13⟩), .array ⟨10⟩]

theorem growth_conservative_dangling :
    resultsProgram.types.WellFormed ∧ resultsProgram.types.contains ⟨11⟩ = true ∧
    (⟨(resultsProgram.types.intern (.union [⟨10⟩, ⟨40⟩])).2, {}⟩ : Classifier).isResultArrayOrTuple
      ⟨11⟩ = true ∧
    resultsProgram.validate = .ok () ∧
    (resultsProgram.types.calls laterTypes).size = 14 ∧
    (Config.lint {} (resultsProgram.withTypes (resultsProgram.types.calls laterTypes))).map
      (fun d => (d.kind, d.node)) = [(.floating, ⟨1⟩), (.floatingResultArray, ⟨3⟩)] := by
  have hvalid : resultsProgram.validate = .ok () := rfl
  have htypes : resultsProgram.types.WellFormed := (Program.validate_eq_ok_iff.1 hvalid).types
  obtain ⟨hanswers, hlint⟩ := growth_conservative
  obtain ⟨-, -, -, -, hverdicts⟩ :=
    hanswers resultsProgram.types htypes (.union [⟨10⟩, ⟨40⟩]) ⟨11⟩ rfl
  refine ⟨htypes, rfl, (hverdicts {}).2.2.1.trans (by cbv), hvalid, by decide, ?_⟩
  rw [hlint resultsProgram hvalid laterTypes {}]
  cbv

end ResultLint
