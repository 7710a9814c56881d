import Mathlib.Tactic.MkIffOfInductiveProp
import ResultLint.Document.Tree
import ResultLint.Proofs.Document.Types

/-!
# Trees in documents read back

The fields of a kind stand beside the fields that all nodes have, in one object.  So no two of them
may have the same name, and none of a kind may be called like one of the others: `nodup_names`.  A
list of arguments that is absent is not the same as an empty one; `null` stands for the first.

* `NodeKind.parts`: **what is written for a kind stands for the kind.**
* `Node.stores`, `Tree.stores`: so do nodes and trees, if their numbers have the width of numbers
  in a document and their number literals read back.
-/

namespace ResultLint

open Json (Stores)
open Record (Parts)

variable {room : Nat}

@[inherit_doc TypeId.Fits]
def NodeId.Fits (id : NodeId) : Prop := id.index < Nat.pow 2 32

instance (id : NodeId) : Decidable id.Fits := inferInstanceAs (Decidable (id.index < Nat.pow 2 32))

/-! ## Keys and values -/

theorem Json.legible_entry {json : Json} (name : String) (h : json.Legible room) :
    (Json.object [(name, json)]).Legible (room + 1) :=
  .object fun _ hfield => by rwa [List.mem_singleton.1 hfield]

theorem Key.stores (room : Nat) {k : Key} (h : ∀ n ∈ k.node?, n.Fits) :
    Stores (room + 1) Key.ofJson? k.toJson k := by
  cases k with
  | name s => exact ⟨Json.legible_entry "name" (.string room s), rfl⟩
  | computed id =>
    obtain ⟨hlegible, hread⟩ := NodeId.stores room (h id rfl)
    refine ⟨Json.legible_entry "computed" hlegible, ?_⟩
    change computed <$> NodeId.ofJson? id.toJson = _
    rw [hread]
    rfl

/-- A number literal that reads back is finite, since no other number has a text. -/
theorem Binary64.ReadsBack.isFinite {x : Binary64} (h : x.ReadsBack) : x.isFinite = true := by
  cases hx : x.isFinite with
  | true => rfl
  | false =>
    have hnull : Json.render (.float x) = "null" := by
      rw [Json.render, hx]
      rfl
    have hparse : Json.parse? "null" = some .null := Json.parse?_render (.null 127)
    rw [ReadsBack, hnull, hparse] at h
    cases h

theorem LiteralValue.stores (room : Nat) {v : LiteralValue} (h : ∀ x, v = .number x → x.ReadsBack) :
    Stores (room + 1) LiteralValue.ofJson? v.toJson v := by
  cases v with
  | string s => exact ⟨Json.legible_entry "string" (.string room s), rfl⟩
  | number x =>
    have hx := h x rfl
    rw [toJson, if_pos hx.isFinite]
    exact ⟨Json.legible_entry "number" (.float room hx), rfl⟩
  | boolean b => exact ⟨Json.legible_entry "boolean" (.bool room b), rfl⟩
  | null => exact ⟨.string _ _, rfl⟩
  | undefined => exact ⟨.string _ _, rfl⟩

/-! ## Kinds -/

namespace Record.Parts

theorem node (name : String) {id : NodeId} (h : id.Fits) :
    Parts room (·.node name) [(name, some id.toJson)] id :=
  required name (NodeId.stores room h)

theorem node? (name : String) {id : Option NodeId} (h : ∀ n ∈ id, n.Fits) :
    Parts room (·.node? name) [(name, some (.ofOptionalNode id))] id :=
  optional name (Json.stores_nullable rfl fun n hn => NodeId.stores room (h n hn))

theorem nodes (name : String) {ids : List NodeId} (h : ∀ n ∈ ids, n.Fits) :
    Parts (room + 1) (·.nodes name) [(name, some (.ofNodes ids))] ids :=
  required name (Json.stores_list fun n hn => NodeId.stores room (h n hn))

theorem text (name s : String) : Parts room (·.text name) [(name, some (.string s))] s :=
  required name (Json.stores_text room s)

theorem flag (name : String) (b : Bool) : Parts room (·.flag name) [(name, some (.bool b))] b :=
  defaulted name false (Json.stores_flag room b)

end Record.Parts

namespace NodeKind

@[inherit_doc Signature.Fits]
def Fits (k : NodeKind) : Prop := ∀ n, k.Mentions n → n.Fits

theorem forall_children_iff {k : NodeKind} : (∀ n ∈ k.children, n.Fits) ↔ k.Fits := by
  simp only [Fits, mem_children_iff]

instance (k : NodeKind) : Decidable k.Fits := decidable_of_iff _ forall_children_iff

/-- **What is written for a kind stands for the kind**, unless it is the literal of a number that
does not read back. -/
theorem parts (room : Nat) {k : NodeKind} (h : k.Fits)
    (hnumber : ∀ x, k = .literal (.number x) → x.ReadsBack) :
    Parts (room + 1) (ofFields? k.name) (Json.present k.fields) k := by
  have hchild := forall_children_iff.2 h
  clear h
  cases k <;> simp only [children, List.forall_mem_cons, List.forall_mem_append, List.not_mem_nil,
    false_implies, implies_true, and_true, Option.mem_toList] at hchild
  case program body => exact .cons (.nodes "body" hchild) (.nil _)
  case block body => exact .cons (.nodes "body" hchild) (.nil _)
  case expressionStatement expression => exact .cons (.node "expression" hchild) (.nil _)
  case ifElse test consequent alternate =>
    obtain ⟨htest, hconsequent, halternate⟩ := hchild
    exact .cons (.node "test" htest) (.cons (.node "consequent" hconsequent)
      (.cons (.node? "alternate" halternate) (.nil _)))
  case whileLoop test body =>
    exact .cons (.node "test" hchild.1) (.cons (.node "body" hchild.2) (.nil _))
  case doWhileLoop body test =>
    exact .cons (.node "body" hchild.1) (.cons (.node "test" hchild.2) (.nil _))
  case forLoop init test update body =>
    obtain ⟨⟨⟨hinit, htest⟩, hupdate⟩, hbody⟩ := hchild
    exact .cons (.node? "init" hinit) (.cons (.node? "test" htest)
      (.cons (.node? "update" hupdate) (.cons (.node "body" hbody) (.nil _))))
  case returnStatement argument => exact .cons (.node? "argument" hchild) (.nil _)
  case variableDeclaration declarators => exact .cons (.nodes "declarators" hchild) (.nil _)
  case variableDeclarator target init =>
    exact .cons (.node "id" hchild.1) (.cons (.node? "init" hchild.2) (.nil _))
  case function form name params body =>
    have hname : FunctionForm.ofJson? (.string form.name) = some form := by cases form <;> rfl
    exact .cons (.required "function" (Json.stores_name _ hname))
      (.cons (.optional "name" (Json.stores_nullable rfl fun s _ => Json.stores_text _ s))
        (.cons (.nodes "params" hchild.1) (.cons (.node "body" hchild.2) (.nil _))))
  case classDeclaration name heritage members =>
    exact .cons (.text "name" name) (.cons (.nodes "heritage" hchild.1)
      (.cons (.nodes "members" hchild.2) (.nil _)))
  case interfaceDeclaration name heritage members =>
    exact .cons (.text "name" name) (.cons (.nodes "heritage" hchild.1)
      (.cons (.nodes "members" hchild.2) (.nil _)))
  case classMember key form value isStatic =>
    have hname : MemberForm.ofJson? (.string form.name) = some form := by cases form <;> rfl
    exact .cons (.required "key" (Key.stores room hchild.1))
      (.cons (.required "member" (Json.stores_name _ hname))
        (.cons (.node? "value" hchild.2) (.cons (.flag "isStatic" isStatic) (.nil _))))
  case sequence expressions => exact .cons (.nodes "expressions" hchild) (.nil _)
  case unary operator argument =>
    have hname : UnaryOp.ofJson? (.string operator.name) = some operator := by
      cases operator <;> rfl
    exact .cons (.required "operator" (Json.stores_name _ hname))
      (.cons (.node "argument" hchild) (.nil _))
  case binary operator left right =>
    exact .cons (.text "operator" operator) (.cons (.node "left" hchild.1)
      (.cons (.node "right" hchild.2) (.nil _)))
  case logical operator left right =>
    have hname : LogicalOp.ofJson? (.string operator.name) = some operator := by
      cases operator <;> rfl
    exact .cons (.required "operator" (Json.stores_name _ hname)) (.cons (.node "left" hchild.1)
      (.cons (.node "right" hchild.2) (.nil _)))
  case conditional test consequent alternate =>
    obtain ⟨htest, hconsequent, halternate⟩ := hchild
    exact .cons (.node "test" htest) (.cons (.node "consequent" hconsequent)
      (.cons (.node "alternate" halternate) (.nil _)))
  case assignment operator left right =>
    exact .cons (.text "operator" operator) (.cons (.node "left" hchild.1)
      (.cons (.node "right" hchild.2) (.nil _)))
  case call callee arguments isOptional =>
    exact .cons (.node "callee" hchild.1) (.cons (.nodes "arguments" hchild.2)
      (.cons (.flag "optional" isOptional) (.nil _)))
  case construct callee arguments =>
    -- an absent list is `null`, and an empty one is a list
    have harguments : ∀ ids ∈ arguments, (Json.ofNodes ids).Stores (room + 1)
        (Json.list NodeId.ofJson?) ids := by
      rintro ids rfl
      exact Json.stores_list fun n hn => NodeId.stores room (hchild.2 n hn)
    exact .cons (.node "callee" hchild.1)
      (.cons (.optional "arguments" (Json.stores_nullable rfl harguments)) (.nil _))
  case member object key isOptional =>
    exact .cons (.node "object" hchild.1) (.cons (.required "property" (Key.stores room hchild.2))
      (.cons (.flag "optional" isOptional) (.nil _)))
  case chain expression => exact .cons (.node "expression" hchild) (.nil _)
  case identifier name => exact .cons (.text "name" name) (.nil _)
  case literal value =>
    have hvalue := LiteralValue.stores room fun x hx => hnumber x (congrArg literal hx)
    exact .cons (.required "value" hvalue) (.nil _)
  case objectLiteral properties => exact .cons (.nodes "properties" hchild) (.nil _)
  case property key value form =>
    have hname : PropertyForm.ofJson? (.string form.name) = some form := by cases form <;> rfl
    exact .cons (.required "key" (Key.stores room hchild.1)) (.cons (.node "value" hchild.2)
      (.cons (.required "property" (Json.stores_name _ hname)) (.nil _)))
  case arrayLiteral elements => exact .cons (.nodes "elements" hchild) (.nil _)
  case spread argument => exact .cons (.node "argument" hchild) (.nil _)
  case element name attributes children =>
    exact .cons (.text "name" name) (.cons (.nodes "attributes" hchild.1)
      (.cons (.nodes "children" hchild.2) (.nil _)))
  case elementAttribute name value =>
    exact .cons (.text "name" name) (.cons (.node? "value" hchild) (.nil _))

/-- No two fields of a node share a name. -/
theorem nodup_names (k : NodeKind) :
    ("kind" :: (k.fields.map (·.1) ++ ["span", "ty", "contextualType"])).Nodup := by
  cases k <;> simp [fields]

end NodeKind

/-! ## Nodes and trees -/

@[inherit_doc Signature.Fits, mk_iff]
structure Span.Fits (s : Span) : Prop where
  start : s.start < Nat.pow 2 64
  stop : s.stop < Nat.pow 2 64
  line : s.line < Nat.pow 2 32
  column : s.column < Nat.pow 2 32

instance (s : Span) : Decidable s.Fits := decidable_of_iff _ (Span.fits_iff s).symm

theorem Span.stores (room : Nat) {s : Span} (h : s.Fits) :
    Stores (room + 1) Span.ofJson? s.toJson s :=
  Json.stores_object ["start", "end", "line", "column"]
    (.cons (.required "start" (Json.stores_natural room h.start (Nat.le_refl _)))
      (.cons (.required "end" (Json.stores_natural room h.stop (Nat.le_refl _)))
        (.cons (.required "line" (Json.stores_natural room h.line (by decide)))
          (.cons (.required "column" (Json.stores_natural room h.column (by decide))) (.nil s)))))
    (by simp)

namespace Node

@[inherit_doc Signature.Fits, mk_iff]
structure Fits (n : Node) : Prop where
  kind : n.kind.Fits
  span : n.span.Fits
  type : ∀ r ∈ n.type, r.Fits
  contextualType : ∀ r ∈ n.contextualType, r.Fits

instance (n : Node) : Decidable n.Fits := decidable_of_iff _ (fits_iff n).symm

/-- The parts of a node: its kind, the fields of the kind, and what all nodes have. -/
def parts (n : Node) : List (String × Option Json) :=
  ("kind", some (.string n.kind.name)) :: (Json.present n.kind.fields ++
    [("span", some n.span.toJson), ("ty", n.type.map TypeId.toJson),
      ("contextualType", n.contextualType.map TypeId.toJson)])

theorem toJson_eq (n : Node) : n.toJson = .object (Json.written n.parts) := by
  have happend : ∀ parts rest, Json.written (parts ++ rest) =
      Json.written parts ++ Json.written rest := fun parts rest => List.flatMap_append
  obtain ⟨kind, span, type, contextualType⟩ := n
  rw [parts, ← List.singleton_append, happend, happend, Json.written_present, toJson]
  cases type <;> cases contextualType <;> simp [Json.written]

theorem nodup_parts (n : Node) : (n.parts.map (·.1)).Nodup := by
  have hnames := n.kind.nodup_names
  rw [← Json.names_present] at hnames
  simpa [parts] using hnames

theorem ofJson?_object {fields : List (String × Json)}
    (h : ∀ field ∈ fields, field.2.sound = true) :
    ofJson? (.object fields) = ofRecord? (Json.values fields) := by
  have hsound : Json.soundFields (fields.filter (·.1 ∉ commonFields)) = true :=
    Json.soundFields_iff.2 fun field hfield => h field (List.mem_filter.1 hfield).1
  rw [ofJson?, hsound]
  rfl

theorem parts_ofRecord? (room : Nat) {n : Node} (h : n.Fits)
    (hnumber : ∀ x, n.kind = .literal (.number x) → x.ReadsBack) :
    Parts (room + 1) ofRecord? n.parts n :=
  .cons (.required "kind" ⟨.string _ _, rfl⟩) (.append (NodeKind.parts room h.kind hnumber)
    (.cons (.defaulted "span" {} (Span.stores room h.span))
      (.cons (.optionalField "ty" rfl fun r hr => TypeId.stores _ (h.type r hr))
        (.cons (.optionalField "contextualType" rfl fun r hr =>
          TypeId.stores _ (h.contextualType r hr)) (.nil n)))))

/-- **What is written for a node stands for the node.** -/
theorem stores (room : Nat) {n : Node} (h : n.Fits)
    (hnumber : ∀ x, n.kind = .literal (.number x) → x.ReadsBack) :
    Stores (room + 2) Node.ofJson? n.toJson n := by
  have hparts := parts_ofRecord? room h hnumber
  have hlegible := Json.legible_written hparts.legible
  rw [toJson_eq]
  refine ⟨.object hlegible, ?_⟩
  rw [ofJson?_object fun field hfield => (hlegible field hfield).sound]
  exact hparts.read _ (Json.gives_values_written n.nodup_parts)

end Node

namespace Tree

@[inherit_doc Signature.Fits, mk_iff]
structure Fits (t : Tree) : Prop where
  node : ∀ n ∈ t.nodes, n.Fits
  root : t.root.Fits

instance (t : Tree) : Decidable t.Fits := decidable_of_iff _ (fits_iff t).symm

/-- The number is a literal in the tree. -/
def HasNumber (t : Tree) (x : Binary64) : Prop := ∃ n ∈ t.nodes, n.kind = .literal (.number x)

theorem stores (room : Nat) {t : Tree} (h : t.Fits) (hnumber : ∀ x, t.HasNumber x → x.ReadsBack) :
    Stores (room + 4) Tree.ofJson? t.toJson t := by
  have hnode : ∀ n ∈ t.nodes.toList, n.toJson.Stores (room + 2) Node.ofJson? n := by
    intro n hn
    have hmem := Array.mem_toList_iff.1 hn
    exact Node.stores room (h.node n hmem) fun x hx => hnumber x ⟨n, hmem, hx⟩
  have hnodes := Json.stores_list hnode
  exact Json.stores_object ["nodes", "root"] (.cons (.required "nodes" hnodes)
    (.cons (.required "root" (NodeId.stores _ h.root)) (.nil t))) (by simp)

end Tree

end ResultLint
