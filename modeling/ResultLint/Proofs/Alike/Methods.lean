import ResultLint.Proofs.Alike.Runs

/-!
# What is expected of methods

What a method should return is looked up by name, in the first of the apparent members of a type
that has a property of that name.  The first one depends on the order of the members.  It does not
matter if all of them that have such a property agree, that is, if the method is not **disputed**.

* `expectsVoidMethod_iff_first`: the first member that has the method decides.
* `expectsVoidMethod_iff`: if a method is not disputed, any member decides.
* `expectsVoidMethod_eq`: **then tables that are alike expect the same of it**, whatever the order.
* `expectsVoidMethod_congr`: and always, if the members come in the same order.
* `Agrees.compared_findings`: **two runs have the same findings**, apart from exceptions, if the
  same is expected of the methods that no exception is about.
-/

namespace ResultLint

/-! ## Disputed methods -/

namespace Context

variable {c d : Context} {name : String} {id id' : TypeId}

/-- Some apparent member has a property of that name that is a function which returns nothing, or is
not, as `void` says. -/
def HasMethod (c : Context) (name : String) (id : TypeId) (void : Bool) : Prop :=
  ∃ m ∈ c.apparentMembers id, ∃ e, c.program.types.property? m name = some e ∧
    c.classifier.isVoidReturning e = void

/-- The apparent members that have a property of that name disagree on it. -/
def Disputed (c : Context) (name : String) (id : TypeId) : Prop :=
  c.HasMethod name id true ∧ c.HasMethod name id false

/-- The first apparent member that has a property of that name has a function which returns nothing
for it. -/
def FirstVoid (c : Context) (name : String) (id : TypeId) : Prop :=
  ∃ e before m after, c.apparentMembers id = before ++ m :: after ∧
    (∀ x ∈ before, c.program.types.property? x name = none) ∧
    c.program.types.property? m name = some e ∧ c.classifier.isVoidReturning e = true

/-- **The first apparent member that has a method decides.** -/
theorem expectsVoidMethod_iff_first :
    Misuse.expectsVoidMethod c name id = true ↔ c.FirstVoid name id := by
  rw [Misuse.expectsVoidMethod, apparentProperty?, Option.any_eq_true]
  refine exists_congr fun e => ?_
  rw [List.findSome?_eq_some_iff]
  constructor
  · rintro ⟨⟨before, m, after, hmembers, hm, hbefore⟩, hv⟩
    exact ⟨before, m, after, hmembers, hbefore, hm, hv⟩
  · rintro ⟨before, m, after, hmembers, hbefore, hm, hv⟩
    exact ⟨⟨before, m, after, hmembers, hm, hbefore⟩, hv⟩

/-- **If a method is not disputed, any apparent member decides.** -/
theorem expectsVoidMethod_iff (h : ¬ c.Disputed name id) :
    Misuse.expectsVoidMethod c name id = true ↔ c.HasMethod name id true := by
  rw [Misuse.expectsVoidMethod, apparentProperty?]
  constructor
  · intro hv
    obtain ⟨e, he, hv⟩ := (Option.any_eq_true _ _).1 hv
    obtain ⟨m, hm, hp⟩ := List.exists_of_findSome?_eq_some he
    exact ⟨m, hm, e, hp, hv⟩
  · intro hhas
    have hsome : ((c.apparentMembers id).findSome? (c.program.types.property? · name)).isSome := by
      obtain ⟨m, hm, e, hp, _⟩ := hhas
      exact List.findSome?_isSome_iff.2 ⟨m, hm, by rw [hp]; rfl⟩
    obtain ⟨e', he'⟩ := Option.isSome_iff_exists.1 hsome
    obtain ⟨m', hm', hp'⟩ := List.exists_of_findSome?_eq_some he'
    rw [he', Option.any_some]
    by_contra hv
    exact h ⟨hhas, m', hm', e', hp', Bool.not_eq_true _ ▸ hv⟩

/-- Nothing is expected of methods where no type is known. -/
theorem expectsVoidMethod_unknown
    (h : c.program.types.get? .unknown = some (.primitive .unknown)) :
    Misuse.expectsVoidMethod c name .unknown = false := by
  rw [Bool.eq_false_iff]
  intro hv
  obtain ⟨e, he, _⟩ := (Option.any_eq_true _ _).1 hv
  obtain ⟨m, hm, hp⟩ := List.exists_of_findSome?_eq_some he
  obtain ⟨o, ho, _⟩ := TypeTable.property?_eq_some_iff.1 hp
  rw [TypeTable.eq_of_mem_apparentMembers_unknown h hm, h] at ho
  cases ho

/-- **Mirrored types expect the same of a method if they have the same property of its name.** -/
theorem expectsVoidMethod_of_property {f : TypeId → TypeId} {Met : TypeId → Prop}
    (h : c.classifier.Mirrors f Met d.classifier)
    (hproperty : d.apparentProperty? id' name = (c.apparentProperty? id name).map f) :
    Misuse.expectsVoidMethod d name id' = Misuse.expectsVoidMethod c name id := by
  rw [Misuse.expectsVoidMethod, Misuse.expectsVoidMethod, hproperty]
  cases he : c.apparentProperty? id name with
  | none => rfl
  | some e =>
    obtain ⟨m, _, hp⟩ := List.exists_of_findSome?_eq_some he
    exact h.isVoidReturning_eq (h.mentioned (TypeTable.mentions_of_property? hp))

variable (h : c.classifier.Alike d.classifier)

include h

theorem hasMethod_iff (hid : c.program.types.contains id = true)
    (hi : d.program.types.Interchangeable id id') {void : Bool} :
    d.HasMethod name id' void ↔ c.HasMethod name id void := by
  rw [HasMethod, HasMethod]
  simp only [apparentMembers, hi.mem_apparentMembers]
  refine h.mirrors.exists_apparentMember_iff hid fun m hm => exists_congr fun e => ?_
  refine (and_congr_left' (Eq.congr_left (h.types.property?_eq hm name))).trans
    (and_congr_right fun he => ?_)
  exact Eq.congr_left (h.mirrors.isVoidReturning_eq (h.source.contains_property? he))

/-- **Tables that are alike expect the same of a method that is not disputed.** -/
theorem expectsVoidMethod_eq (hid : c.program.types.contains id = true)
    (hi : d.program.types.Interchangeable id id') (hdisputed : ¬ c.Disputed name id) :
    Misuse.expectsVoidMethod d name id' = Misuse.expectsVoidMethod c name id := by
  have hdisputed' : ¬ d.Disputed name id' := by
    rwa [Disputed, hasMethod_iff h hid hi, hasMethod_iff h hid hi]
  rw [Bool.eq_iff_iff, expectsVoidMethod_iff hdisputed, expectsVoidMethod_iff hdisputed',
    hasMethod_iff h hid hi]

/-- **They expect the same of every method if the apparent members come in the same order.** -/
theorem expectsVoidMethod_congr
    (hmembers : d.program.types.apparentMembers id' = c.program.types.apparentMembers id) :
    Misuse.expectsVoidMethod d name id' = Misuse.expectsVoidMethod c name id := by
  refine expectsVoidMethod_of_property h.mirrors ?_
  rw [apparentProperty?, apparentProperty?, ← List.head?_filterMap, ← List.head?_filterMap,
    apparentMembers, apparentMembers, hmembers, Option.map_id]
  refine congrArg List.head? (List.filterMap_congr fun m hm => ?_)
  exact h.types.property?_eq (h.source.contains_of_mem_apparentMembers hm) name

end Context

/-! ## Findings -/

/-- The name of a rule, the name of a kind of diagnostic, and a node. -/
abbrev Finding := String × String × NodeId

/-- What a diagnostic says, whatever it quotes. -/
def Diagnostic.finding (d : Diagnostic) : Finding := (d.rule, d.kind.id, d.node)

def Diagnostic.findings (ds : List Diagnostic) : List Finding := ds.map finding

def Misuse.finding (kind : DiagnosticKind) (node : NodeId) : Finding := (info.name, kind.id, node)

/-- The diagnostics have the same findings, apart from the exceptions. -/
def Diagnostic.SameBut (E : Finding → Prop) (ds es : List Diagnostic) : Prop :=
  ∀ x, ¬ E x → (x ∈ findings es ↔ x ∈ findings ds)

namespace Diagnostic

theorem findings_outlines (ds : List Diagnostic) : findings (outlines ds) = findings ds := by
  rw [findings, outlines, List.map_map]
  refine List.map_congr_left fun d _ => ?_
  rw [Function.comp_apply, finding, finding, outline, d.kind.id_anonymous]

theorem comparison_sameBut (E : Finding → Prop) : Comparison (SameBut E) where
  of_outlines := by
    intro ds es h x _
    rw [← findings_outlines ds, ← findings_outlines es, h]
  append := by
    intro ds es ds' es' h h' x hx
    rw [findings, findings, List.map_append, List.map_append, List.mem_append, List.mem_append]
    exact or_congr (h x hx) (h' x hx)

/-- Where only exceptions are found, nothing else is. -/
theorem SameBut.of_exception {E : Finding → Prop} {ds es : List Diagnostic}
    (hd : ∀ d ∈ ds, E d.finding) (he : ∀ d ∈ es, E d.finding) : SameBut E ds es := by
  have hnone : ∀ {ds : List Diagnostic} {x : Finding}, (∀ d ∈ ds, E d.finding) → ¬ E x →
      x ∉ findings ds := by
    intro ds x hds hx hmem
    obtain ⟨d, hd, rfl⟩ := List.mem_map.1 hmem
    exact hx (hds d hd)
  exact fun x hx => iff_of_false (hnone he hx) (hnone hd hx)

end Diagnostic

namespace Misuse

variable {c : Context} {d : Diagnostic}

theorem finding_of_from {K : DiagnosticKind → Prop} {kind : DiagnosticKind} {node : NodeId}
    (h : d.From info K) (hkind : d.kind.id = kind.id) (hnode : d.node = node) :
    d.finding = finding kind node := by
  rw [Diagnostic.finding, finding, h.rule, hkind, hnode]

theorem finding_checkPredicate {callee predicate : NodeId} {rest : List NodeId}
    (h : d ∈ checkPredicate c callee (predicate :: rest)) :
    d.finding = finding .predicate predicate :=
  finding_of_from (from_checkPredicate h) (by rw [(from_checkPredicate h).kind]) (node_reportIf h)

theorem finding_checkProperty {object property value : NodeId} {key : Key} {form : PropertyForm}
    (hk : c.tree.kind? property = some (.property key value form))
    (h : d ∈ checkProperty c object property) : d.finding = finding .voidReturnProperty value := by
  obtain ⟨key', form', hk'⟩ := node_checkProperty h
  rw [hk] at hk'
  cases hk'
  exact finding_of_from (from_checkProperty h) (by rw [(from_checkProperty h).kind]) rfl

theorem finding_checkInherited {declaration member : NodeId}
    (h : d ∈ checkInherited c declaration member) :
    d.finding = finding (.voidReturnInheritedMethod "") member := by
  obtain ⟨name, hkind⟩ := (from_checkInherited h).kind
  exact finding_of_from (from_checkInherited h) (by rw [hkind]; rfl) (node_checkInherited h)

section

variable {declaration member : NodeId} {kind : NodeKind} {heritage members : List NodeId}
  {name : String} {form : MemberForm} {value : Option NodeId}
  (hk : c.tree.kind? declaration = some kind) (hc : kind.classLike? = some (heritage, members))
  (hm : c.tree.kind? member = some (.classMember (.name name) form value false))

include hk hc hm

theorem checkInherited_eq : checkInherited c declaration member =
    if c.returnsResult member then
      ((heritageTypes c heritage).filter (expectsVoidMethod c name)).map fun parent =>
        c.report info (.voidReturnInheritedMethod (c.program.types.display parent)) member
    else [] := by
  rw [checkInherited, hk, hm, Option.bind_some, hc]

/-- An inherited method is reported if it returns a Result and some type of the heritage expects it
to return nothing. -/
theorem mem_findings_checkInherited {x : Finding} :
    x ∈ Diagnostic.findings (checkInherited c declaration member) ↔
      x = finding (.voidReturnInheritedMethod "") member ∧ c.returnsResult member = true ∧
      ∃ clause ∈ heritage, expectsVoidMethod c name (c.program.typeAt clause) = true := by
  constructor
  · intro hx
    obtain ⟨d, hd, rfl⟩ := List.mem_map.1 hx
    refine ⟨finding_checkInherited hd, ?_⟩
    rw [checkInherited_eq hk hc hm] at hd
    split at hd
    next hr =>
      obtain ⟨parent, hparent, -⟩ := List.mem_map.1 hd
      obtain ⟨hmem, hv⟩ := List.mem_filter.1 hparent
      obtain ⟨clause, hclause, rfl⟩ := mem_heritageTypes_iff.1 hmem
      exact ⟨hr, clause, hclause, hv⟩
    next => exact absurd hd List.not_mem_nil
  · rintro ⟨rfl, hr, clause, hclause, hv⟩
    rw [checkInherited_eq hk hc hm, if_pos hr]
    refine List.mem_map.2 ⟨_, List.mem_map.2 ⟨c.program.typeAt clause, ?_, rfl⟩, rfl⟩
    exact List.mem_filter.2 ⟨mem_heritageTypes_iff.2 ⟨clause, hclause, rfl⟩, hv⟩

end

theorem checkInherited_eq_nil {declaration member : NodeId}
    (h : ∀ {name : String} {form : MemberForm} {value : Option NodeId},
      c.tree.kind? member ≠ some (.classMember (.name name) form value false)) :
    checkInherited c declaration member = [] := by
  rw [checkInherited]
  split
  next hk => exact absurd hk h
  next => rfl

end Misuse

/-! ## Methods of a tree -/

/-- A node has a type of its own, and one that its surroundings expect. -/
inductive Position where
  | own
  | context
deriving DecidableEq, Repr

def Node.typeIn (n : Node) : Position → Option TypeId
  | .own => n.type
  | .context => n.contextualType

/-- The type of a node in a position. -/
def Program.typeIn? (p : Program) (position : Position) (id : NodeId) : Option TypeId :=
  (p.tree.get? id).bind (·.typeIn position)

theorem Program.Valid.contains_typeIn? {p : Program} (h : p.Valid) {position : Position}
    {id : NodeId} {r : TypeId} (hr : p.typeIn? position id = some r) :
    p.types.contains r = true := by
  obtain ⟨node, hn, hr⟩ := Option.bind_eq_some_iff.1 hr
  cases position with
  | own => exact h.type hn hr
  | context => exact h.contextualType hn hr

/-- The finding is about a method of that name, which should be as `holder` says by its type in that
position: the object around a method, or a clause of the heritage of its class. -/
inductive Tree.MethodBy (t : Tree) : Position → NodeId → String → Finding → Prop
  | shorthand {object property method : NodeId} {properties : List NodeId} {name : String}
      (hobject : t.Reaches t.root object)
      (hproperties : t.kind? object = some (.objectLiteral properties))
      (hproperty : property ∈ properties)
      (hk : t.kind? property = some (.property (.name name) method .method)) :
      MethodBy t .context object name (Misuse.finding .voidReturnProperty method)
  | inherited {declaration clause member : NodeId} {kind : NodeKind}
      {heritage members : List NodeId} {name : String} {form : MemberForm} {value : Option NodeId}
      (hdeclaration : t.Reaches t.root declaration) (hkind : t.kind? declaration = some kind)
      (hparts : kind.classLike? = some (heritage, members)) (hclause : clause ∈ heritage)
      (hmember : member ∈ members)
      (hk : t.kind? member = some (.classMember (.name name) form value false)) :
      MethodBy t .own clause name (Misuse.finding (.voidReturnInheritedMethod "") member)

namespace Context

/-- What is expected of a method of that name by a node in a position. -/
def expectsVoidAt (c : Context) (name : String) : Position → NodeId → Bool
  | .own, holder => Misuse.expectsVoidMethod c name (c.program.typeAt holder)
  | .context, holder =>
    (c.program.contextualType? holder).any (Misuse.expectsVoidMethod c name)

variable {c d : Context} {E : Finding → Prop}

theorem expectsVoidAt_congr (hc : c.program.types.WellFormed) (hd : d.program.types.WellFormed)
    {name : String} {position : Position} {holder : NodeId}
    (h : Option.Rel
      (fun r r' => Misuse.expectsVoidMethod d name r' = Misuse.expectsVoidMethod c name r)
      (c.program.typeIn? position holder) (d.program.typeIn? position holder)) :
    d.expectsVoidAt name position holder = c.expectsVoidAt name position holder := by
  cases position with
  | own =>
    have hunknown : ∀ {e : Context}, e.program.types.WellFormed →
        Misuse.expectsVoidMethod e name .unknown = false :=
      fun he => expectsVoidMethod_unknown (he.primitive .unknown)
    exact rel_getD h ((hunknown hd).trans (hunknown hc).symm)
  | context => exact rel_any h

theorem Agrees.kind?_property (h : c.Agrees d) {n value : NodeId} {key : Key} {form : PropertyForm}
    (hk : c.tree.kind? n = some (.property key value form)) :
    d.tree.kind? n = some (.property key value form) := by
  rcases h.kind_cases n with ⟨hc, _⟩ | ⟨kind, kind', hc, hd, halike⟩
  · rw [hk] at hc
    cases hc
  · rw [hk] at hc
    cases hc
    cases halike
    exact hd

theorem Agrees.exists_classLike? (h : c.Agrees d) {n : NodeId} {kind : NodeKind}
    {heritage members : List NodeId} (hk : c.tree.kind? n = some kind)
    (hc : kind.classLike? = some (heritage, members)) :
    ∃ kind', d.tree.kind? n = some kind' ∧ kind'.classLike? = some (heritage, members) := by
  rcases h.kind_cases n with ⟨hn, _⟩ | ⟨kind, kind', hn, hd, halike⟩
  · rw [hk] at hn
    cases hn
  · rw [hk] at hn
    cases hn
    exact ⟨kind', hd, halike.classLike?_eq.trans hc⟩

/-- Members of classes are the same, but for the way in which they are written. -/
theorem Agrees.kind?_classMember_iff (h : c.Agrees d) {n : NodeId} {key : Key}
    {value : Option NodeId} {isStatic : Bool} :
    (∃ form, d.tree.kind? n = some (.classMember key form value isStatic)) ↔
      ∃ form, c.tree.kind? n = some (.classMember key form value isStatic) := by
  rcases h.kind_cases n with ⟨hc, hd⟩ | ⟨kind, kind', hc, hd, halike⟩
  · rw [hc, hd]
  · rw [hc, hd]
    cases halike with
    | refl kind => exact Iff.rfl
    | classMember key form form' value isStatic => simp
    | _ => simp

/-- Members that are no methods with a name are not looked at. -/
theorem Agrees.method_cases (h : c.Agrees d) (declaration member : NodeId) :
    (Misuse.checkInherited c declaration member = [] ∧
      Misuse.checkInherited d declaration member = []) ∨
    ∃ name form form' value,
      c.tree.kind? member = some (.classMember (.name name) form value false) ∧
      d.tree.kind? member = some (.classMember (.name name) form' value false) := by
  by_cases hmember : ∃ name value form,
      c.tree.kind? member = some (.classMember (.name name) form value false)
  · obtain ⟨name, value, form, hc⟩ := hmember
    obtain ⟨form', hd⟩ := h.kind?_classMember_iff.2 ⟨form, hc⟩
    exact Or.inr ⟨name, form, form', value, hc, hd⟩
  · refine Or.inl ⟨Misuse.checkInherited_eq_nil fun hc => hmember ⟨_, _, _, hc⟩,
      Misuse.checkInherited_eq_nil fun {name form value} hd => ?_⟩
    obtain ⟨form', hc⟩ := h.kind?_classMember_iff.1 ⟨form, hd⟩
    exact hmember ⟨name, value, form', hc⟩

/-- **Two runs have the same findings apart from exceptions**, if no exception is about a name that
is read differently or a method of which something else is expected. -/
theorem Agrees.compared_findings (h : c.Agrees d)
    (hnames : ∀ {id callee argument object : NodeId} {rest : List NodeId} {key : Key}
      {isOptional isOptional' : Bool}, c.tree.Reaches c.tree.root id →
      c.tree.kind? id = some (.call callee (argument :: rest) isOptional) →
      c.tree.kind? (c.tree.skipChain callee) = some (.member object key isOptional') →
      ¬ E (Misuse.finding .predicate argument) →
      Misuse.namesPredicate d key = Misuse.namesPredicate c key)
    (hmethods : ∀ {position : Position} {holder : NodeId} {name : String} {x : Finding},
      c.tree.MethodBy position holder name x → ¬ E x →
      d.expectsVoidAt name position holder = c.expectsVoidAt name position holder) :
    Context.ComparedAlong id (Diagnostic.SameBut E) c d where
  predicate := by
    intro id callee arguments isOptional hid hk
    rw [List.map_id]
    cases arguments with
    | nil => exact (Diagnostic.comparison_sameBut E).refl []
    | cons argument rest =>
      by_cases hE : E (Misuse.finding .predicate argument)
      · -- the excepted report may come and go, and the check makes no other
        refine .of_exception (fun e he => ?_) fun e he => ?_
        · rwa [Misuse.finding_checkPredicate he]
        · rwa [Misuse.finding_checkPredicate he]
      · refine (Diagnostic.comparison_sameBut E).of_outlines ?_
        exact h.outlines_predicate (fun hmember => hnames hid hk hmember hE) _
  property := by
    intro id property properties hid hk hproperty
    by_cases hE : ∃ name value,
        c.tree.kind? property = some (.property (.name name) value .method) ∧
        E (Misuse.finding .voidReturnProperty value)
    · obtain ⟨name, value, hmethod, hE⟩ := hE
      refine .of_exception (fun e he => ?_) fun e he => ?_
      · rwa [Misuse.finding_checkProperty hmethod he]
      · rwa [Misuse.finding_checkProperty (h.kind?_property hmethod) he]
    · refine (Diagnostic.comparison_sameBut E).of_outlines (h.outlines_property ?_)
      intro name value hmethod
      exact hmethods (.shorthand hid hk hproperty hmethod)
        fun hE' => hE ⟨name, value, hmethod, hE'⟩
  inherited := by
    intro declaration member kind heritage members hdeclaration hk hc hm x hx
    rw [id, id]
    rcases h.method_cases declaration member with ⟨hnone, hnone'⟩ |
      ⟨name, form, form', value, hmember, hmember'⟩
    · rw [hnone, hnone']
    · obtain ⟨kind', hk', hc'⟩ := h.exists_classLike? hk hc
      have hreturns : d.returnsResult member = c.returnsResult member := h.returnsResult member
      -- reports for different parents are one finding, made if some parent expects no result
      rw [Misuse.mem_findings_checkInherited hk hc hmember,
        Misuse.mem_findings_checkInherited hk' hc' hmember', hreturns]
      refine and_congr_right fun hfinding => and_congr_right fun _ => exists_congr fun clause =>
        and_congr_right fun hclause => ?_
      rw [hfinding] at hx
      exact Eq.congr_left (hmethods (.inherited hdeclaration hk hc hclause hm hmember) hx)

end Context

/-- Severities are no part of findings. -/
theorem Config.findings_lint (config : Config) (p : Program) :
    Diagnostic.findings (config.lint p) =
      Diagnostic.findings (Rule.run config.activeRules ⟨p, config.shape⟩) := by
  rw [lint, Diagnostic.findings, Diagnostic.findings, List.map_map]
  rfl

end ResultLint
