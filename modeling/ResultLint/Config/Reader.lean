import ResultLint.Config.Basic
import ResultLint.Toml.Reader

/-!
# Reading configurations

A configuration is a table, or an array of its fields in their order; so is each table with fixed
keys in it.  What is missing keeps its default.  Unknown keys are passed over, except among the
checks, where they are errors.
-/

namespace ResultLint

namespace Toml.Value

/-- A string.  A date counts as its text. -/
def text? : Value → Option String
  | string s => some s
  | date s => some s
  | _ => none

def flag? : Value → Option Bool
  | boolean b => some b
  | _ => none

def lookup (fields : List (String × Value)) (key : String) : Option Value :=
  (fields.find? (·.1 = key)).map (·.2)

/-- The values under the given keys, from a table or from an array that lists them. -/
def record? (keys : List String) : Value → Option (String → Option Value)
  | table fields => some (lookup fields)
  | array items => if items.length ≤ keys.length then some (lookup (keys.zip items)) else none
  | _ => none

/-- The same, without any other key. -/
def exactRecord? (keys : List String) (v : Value) : Option (String → Option Value) :=
  match v with
  | table fields => if fields.all (·.1 ∈ keys) then v.record? keys else none
  | v => v.record? keys

/-- The value under a key, or the default. -/
def read {α : Type} (get : String → Option Value) (key : String) (f : Value → Option α)
    (default : α) : Option α :=
  match get key with
  | none => some default
  | some v => f v

end Toml.Value

open Toml (Value)

def ResultShape.ofToml? (v : Value) : Option ResultShape := do
  let get ← v.record? ["discriminant", "success", "failure"]
  return {
    discriminant := ← Value.read get "discriminant" Value.text? "tag"
    success := ← Value.read get "success" Value.text? "success"
    failure := ← Value.read get "failure" Value.text? "failure" }

/-- A severity is given by its name, or by a table with that key alone and nothing under it. -/
def Severity.ofToml? : Value → Option Severity
  | .string s => ofName? s
  | .table [(s, .table [])] => ofName? s
  | .table [(s, .array [])] => ofName? s
  | _ => none

def Config.overridesOfToml? : Value → Option (List (String × Severity))
  | .table fields => fields.mapM fun (rule, v) => (Severity.ofToml? v).map (rule, ·)
  | _ => none

/-- All checks at once by a truth value, or one by one. -/
def VoidReturnChecks.ofToml? : Value → Option VoidReturnChecks
  | .boolean true => some .all
  | .boolean false => some .none
  | v => do
    let get ← v.exactRecord?
      ["arguments", "attributes", "properties", "returns", "variables", "inheritedMethods"]
    return {
      arguments := ← Value.read get "arguments" Value.flag? true
      attributes := ← Value.read get "attributes" Value.flag? true
      properties := ← Value.read get "properties" Value.flag? true
      returns := ← Value.read get "returns" Value.flag? true
      assignments := ← Value.read get "variables" Value.flag? true
      inheritedMethods := ← Value.read get "inheritedMethods" Value.flag? true }

def MisuseChecks.ofToml? (v : Value) : Option MisuseChecks := do
  let get ← v.exactRecord?
    ["checksConditionals", "checksVoidReturn", "checksSpreads", "checksPredicates"]
  return {
    conditionals := ← Value.read get "checksConditionals" Value.flag? true
    voidReturn := ← Value.read get "checksVoidReturn" VoidReturnChecks.ofToml? {}
    spreads := ← Value.read get "checksSpreads" Value.flag? true
    predicates := ← Value.read get "checksPredicates" Value.flag? true }

namespace Config

def ofToml? (v : Value) : Option Config := do
  let get ← v.record? ["rules", "result-shape", "no-misused-railways"]
  return {
    overrides := ← Value.read get "rules" overridesOfToml? []
    shape := ← Value.read get "result-shape" ResultShape.ofToml? {}
    misuse := ← Value.read get "no-misused-railways" MisuseChecks.ofToml? {} }

/-- The configuration in a document: what stands under `lint`, or else the whole document. -/
def parse? (text : String) : Option Config := do
  let fields ← Toml.parse? text
  ofToml? ((Value.lookup fields "lint").getD (.table fields))

end Config

end ResultLint
