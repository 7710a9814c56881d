import ResultLint.Proofs.Display.Phrases
import ResultLint.Proofs.Json.Legible
import ResultLint.Types.Display

/-!
# Types that are displayed alike

A **form** is a type spelled out.  Its text has parentheses around a union that is the element of an
array, and nowhere else, so what stands after a function is read as part of its result.  The
**reading** of a form is the form that its text says when it is read in this way.

* `Form.map_fold`: what is put together along a form, by two sets of steps.
* `Form.spelling_reading`, `Form.form_phrase`: the phrase of a form and its reading give each other.
* `Form.Clear.reading_eq`: **a form reads as it is** if no function is the element of an array or
  ends a member of a union other than the last.
* `TypeTable.toList_textWithin`: a type is displayed as its form says.
* `TypeTable.display_eq_iff_reading`: **types are displayed alike if and only if they read alike.**
* `TypeTable.display_functions_alike`: two pairs of types that are displayed alike.
-/

namespace ResultLint

/-! ## Forms -/

/-- A type spelled out.  A union is that of its first member and the others. -/
inductive Form where
  | primitive (p : Primitive)
  | array (element : Form)
  | tuple (elements : List Form)
  | or (first others : Form)
  | function (params : List (Label × Form)) (result : Form)

namespace Form

/-- Induction over forms. -/
theorem ind {P : Form → Prop} (primitive : ∀ p, P (.primitive p))
    (array : ∀ e, P e → P (.array e)) (tuple : ∀ es, (∀ e ∈ es, P e) → P (.tuple es))
    (or : ∀ f g, P f → P g → P (.or f g))
    (function : ∀ ps r, (∀ p ∈ ps, P p.2) → P r → P (.function ps r)) (f : Form) : P f :=
  @Form.rec P (fun es => ∀ e ∈ es, P e) (fun ps => ∀ p ∈ ps, P p.2) (fun p => P p.2) primitive array
    tuple or function (fun _ h => absurd h List.not_mem_nil)
    (fun _ _ he hes => List.forall_mem_cons.2 ⟨he, hes⟩) (fun _ h => absurd h List.not_mem_nil)
    (fun _ _ hp hps => List.forall_mem_cons.2 ⟨hp, hps⟩) (fun _ _ h => h) f

/-- How to put something together along a form.  An array may look at its element. -/
structure Algebra (α : Type) where
  primitive : Primitive → α
  array : Form → α → α
  tuple : List α → α
  or : α → α → α
  function : List (Label × α) → α → α

section

variable {α β : Type} (A : Algebra α)

mutual

def fold : Form → α
  | primitive p => A.primitive p
  | array e => A.array e (fold e)
  | tuple es => A.tuple (foldAll es)
  | or f g => A.or (fold f) (fold g)
  | function ps r => A.function (foldParams ps) (fold r)

def foldAll : List Form → List α
  | [] => []
  | f :: fs => fold f :: foldAll fs

def foldParams : List (Label × Form) → List (Label × α)
  | [] => []
  | (l, f) :: ps => (l, fold f) :: foldParams ps

end

theorem fold_tuple (es : List Form) : fold A (tuple es) = A.tuple (es.map (fold A)) := by
  have hall : foldAll A es = es.map (fold A) := eq_map_of_cons rfl (fun _ _ => rfl) es
  rw [fold, hall]

theorem fold_function (ps : List (Label × Form)) (r : Form) :
    fold A (function ps r) = A.function (ps.map fun p => (p.1, fold A p.2)) (fold A r) := by
  have hall : foldParams A ps = ps.map fun p => (p.1, fold A p.2) :=
    eq_map_of_cons rfl (fun _ _ => rfl) ps
  rw [fold, hall]

variable {A}

/-- **Fusion**: a map that takes the steps of one algebra to those of another takes what they put
together to one another. -/
theorem map_fold {B : Algebra β} {h : α → β} (primitive : ∀ p, h (A.primitive p) = B.primitive p)
    (array : ∀ e, h (fold A e) = fold B e → h (A.array e (fold A e)) = B.array e (fold B e))
    (tuple : ∀ xs, h (A.tuple xs) = B.tuple (xs.map h))
    (or : ∀ x y, h (A.or x y) = B.or (h x) (h y))
    (function : ∀ ps x, h (A.function ps x) = B.function (ps.map fun p => (p.1, h p.2)) (h x))
    (f : Form) : h (fold A f) = fold B f := by
  induction f using Form.ind with
  | primitive p => exact primitive p
  | array e ih => exact array e ih
  | tuple es ih =>
    rw [fold_tuple, fold_tuple, tuple, List.map_map]
    exact congrArg B.tuple (List.map_congr_left ih)
  | or f g ihf ihg => rw [fold, fold, or, ihf, ihg]
  | function ps r ihps ihr =>
    rw [fold_function, fold_function, function, List.map_map, ihr]
    refine congrArg (B.function · (fold B r)) (List.map_congr_left fun p hp => ?_)
    exact congrArg (Prod.mk p.1) (ihps p hp)

end

def isOr : Form → Bool
  | or _ _ => true
  | _ => false

def isFunction : Form → Bool
  | function _ _ => true
  | _ => false

/-- The union of a form and others. -/
def union : Form → List Form → Form
  | f, [] => f
  | f, g :: gs => or f (union g gs)

/-! ## Flat forms -/

/-- The members of one form before those of another. -/
def append : Form → Form → Form
  | or first others, g => or first (append others g)
  | f, g => or f g

/-- Unions that are members of unions give way to their members. -/
def flat : Form → Form :=
  fold { primitive, array := fun _ => array, tuple, or := append, function }

/-! ## Readings -/

/-- How brackets after a form read.  They belong to its last alternative, and behind a function to
the result. -/
def bracketed : Form → Form
  | or first others => or first others.bracketed
  | function params result => function params result.bracketed
  | f => array f

/-- How an alternative after a form reads.  Behind a function it belongs to the result. -/
def joined : Form → Form → Form
  | or first others, g => or first (joined others g)
  | function params result, g => function params (joined result g)
  | f, g => or f g

/-- What the text of a form reads as.  Only the parentheses around a union keep brackets outside. -/
def reading : Form → Form :=
  fold {
    primitive, tuple, function
    array := fun e r => if e.isOr then array r else r.bracketed
    or := joined }

/-- The phrase of a form, with some of the elements of arrays in parentheses. -/
def phraseWith (grouped : Form → Bool) : Form → Phrase :=
  fold {
    primitive := fun p => .last (.primitive p) 0
    array := fun e p => if grouped e then .last (.group p) 0 else p.suffixed
    tuple := fun ps => .last (.tuple ps) 0
    or := .followedBy
    function := .function }

/-- The phrase that is displayed. -/
def phrase : Form → Phrase := phraseWith isOr

/-- The phrase that keeps brackets outside of functions as well. -/
def spelling : Form → Phrase := phraseWith fun e => e.isOr || e.isFunction

/-! ## Phrases and readings -/

theorem spelling_bracketed : ∀ f : Form, f.bracketed.spelling = f.spelling.suffixed
  | primitive _ | array _ | tuple _ => rfl
  | or first others => by
    have ih := spelling_bracketed others
    change first.spelling.followedBy others.bracketed.spelling = _
    rw [ih]
    exact (Phrase.followedBy_suffixed _ _).symm
  | function params result => by
    have ih := spelling_bracketed result
    exact congrArg (Phrase.function _) ih

theorem spelling_joined (g : Form) :
    ∀ f : Form, (f.joined g).spelling = f.spelling.followedBy g.spelling
  | primitive _ | array _ | tuple _ => rfl
  | or first others => by
    have ih := spelling_joined g others
    change first.spelling.followedBy (others.joined g).spelling = _
    rw [ih]
    exact (Phrase.followedBy_assoc _ _ _).symm
  | function params result => by
    have ih := spelling_joined g result
    exact congrArg (Phrase.function _) ih

theorem spelling_array_reading {e : Form} (h : e.isOr = true) :
    e.reading.array.spelling = .last (.group e.reading.spelling) 0 := by
  cases e with
  | or f g =>
    have hjoined : (or f g).reading = f.reading.joined g.reading := rfl
    rw [hjoined]
    cases f.reading <;> rfl
  | _ => cases h

/-- **A type is displayed as its reading is spelled.** -/
theorem spelling_reading (f : Form) : f.reading.spelling = f.phrase := by
  refine map_fold (fun p => rfl) (fun e ih => ?_) (fun es => ?_) (fun f g => spelling_joined g f)
    (fun ps r => ?_) f
  · dsimp only
    split
    case isTrue h =>
      rw [← ih]
      exact spelling_array_reading h
    case isFalse h => rw [spelling_bracketed, ih]
  · exact fold_tuple _ es
  · exact fold_function _ ps r

def arrays : Nat → Form → Form
  | 0, f => f
  | n + 1, f => array (arrays n f)

end Form

mutual

/-- The form that a phrase says. -/
def Phrase.form : Phrase → Form
  | .last a dims => a.form.arrays dims
  | .or a dims rest => .or (a.form.arrays dims) rest.form
  | .function params result => .function (Phrase.formParams params) result.form

def Atom.form : Atom → Form
  | .primitive p => .primitive p
  | .tuple elements => .tuple (Phrase.forms elements)
  | .group p => .array p.form

def Phrase.forms : List Phrase → List Form
  | [] => []
  | p :: ps => p.form :: Phrase.forms ps

def Phrase.formParams : List (Label × Phrase) → List (Label × Form)
  | [] => []
  | (l, p) :: ps => (l, p.form) :: Phrase.formParams ps

end

namespace Phrase

theorem forms_eq_map (ps : List Phrase) : forms ps = ps.map form :=
  eq_map_of_cons rfl (fun _ _ => rfl) ps

theorem formParams_eq_map (ps : List (Label × Phrase)) :
    formParams ps = ps.map fun p => (p.1, p.2.form) :=
  eq_map_of_cons rfl (fun _ _ => rfl) ps

theorem form_suffixed : ∀ p : Phrase, p.suffixed.form = p.form.bracketed
  | last a dims => by cases dims <;> cases a <;> rfl
  | or a dims rest => congrArg (Form.or _) (form_suffixed rest)
  | function params result => congrArg (Form.function _) (form_suffixed result)

theorem form_followedBy (q : Phrase) : ∀ p : Phrase, (p.followedBy q).form = p.form.joined q.form
  | last a dims => by cases dims <;> cases a <;> rfl
  | or a dims rest => congrArg (Form.or _) (form_followedBy q rest)
  | function params result => congrArg (Form.function _) (form_followedBy q result)

end Phrase

namespace Form

/-- **What is displayed says the reading.** -/
theorem form_phrase (f : Form) : f.phrase.form = f.reading := by
  refine map_fold (fun p => rfl) (fun e ih => ?_) (fun es => ?_)
    (fun f g => Phrase.form_followedBy g f) (fun ps r => ?_) f
  · dsimp only
    split
    case isTrue => exact congrArg array ih
    case isFalse => rw [Phrase.form_suffixed, ih]
  · exact congrArg tuple (Phrase.forms_eq_map es)
  · exact congrArg (function · r.form) (Phrase.formParams_eq_map ps)

/-- **Types are displayed alike if and only if they read alike.** -/
theorem text_eq_iff_reading {f g : Form} :
    f.phrase.text = g.phrase.text ↔ f.reading = g.reading := by
  constructor
  · intro h
    rw [← form_phrase, ← form_phrase, Phrase.text_injective h]
  · intro h
    rw [← spelling_reading, ← spelling_reading, h]

/-! ## Clear forms -/

/-- The form ends with the result of a function. -/
def endsOpen : Form → Bool
  | or _ others => others.endsOpen
  | function _ _ => true
  | _ => false

/-- No function is the element of an array or ends a member of a union other than the last. -/
inductive Clear : Form → Prop where
  | primitive (p : Primitive) : Clear (primitive p)
  | array {e : Form} (he : e.Clear) (hfunction : e.isFunction = false) : Clear (array e)
  | tuple {es : List Form} (hes : ∀ e ∈ es, Clear e) : Clear (tuple es)
  | or {f g : Form} (hf : f.Clear) (hg : g.Clear) (hends : f.endsOpen = false) : Clear (or f g)
  | function {ps : List (Label × Form)} {r : Form} (hps : ∀ p ∈ ps, Clear p.2) (hr : r.Clear) :
    Clear (function ps r)

theorem endsOpen_append (g : Form) : ∀ f : Form, (f.append g).endsOpen = g.endsOpen
  | or _ others => endsOpen_append g others
  | primitive _ | array _ | tuple _ | function _ _ => rfl

theorem endsOpen_flat (f : Form) : f.flat.endsOpen = f.endsOpen := by
  induction f using Form.ind with
  | or f g _ ihg => exact (endsOpen_append g.flat f.flat).trans ihg
  | _ => rfl

theorem joined_eq_append (g : Form) : ∀ {f : Form}, f.endsOpen = false → f.joined g = f.append g
  | or first others, h => congrArg (or first) (joined_eq_append g (f := others) h)
  | primitive _, _ | array _, _ | tuple _, _ => rfl

theorem bracketed_flat {f : Form} (hor : f.isOr = false) (hfunction : f.isFunction = false) :
    f.flat.bracketed = f.flat.array := by
  cases f with
  | or => cases hor
  | function => cases hfunction
  | _ => rfl

/-- **A clear form reads as it is**, but for unions in unions. -/
theorem Clear.reading_eq {f : Form} (h : f.Clear) : f.reading = f.flat := by
  induction h with
  | primitive p => rfl
  | @array e _ hfunction ih =>
    change (if e.isOr then e.reading.array else e.reading.bracketed) = e.flat.array
    rw [ih]
    split
    case isTrue => rfl
    case isFalse hor => exact bracketed_flat (eq_false_of_ne_true hor) hfunction
  | tuple _ ih =>
    refine (fold_tuple _ _).trans (Eq.trans ?_ (fold_tuple _ _).symm)
    exact congrArg Form.tuple (List.map_congr_left ih)
  | @or f g _ _ hends ihf ihg =>
    change f.reading.joined g.reading = f.flat.append g.flat
    rw [ihf, ihg]
    exact joined_eq_append g.flat ((endsOpen_flat f).trans hends)
  | @function ps r _ _ ihps ihr =>
    refine (fold_function _ _ _).trans (Eq.trans ?_ (fold_function _ _ _).symm)
    refine congrArg₂ Form.function (List.map_congr_left fun p hp => ?_) ihr
    exact congrArg (Prod.mk p.1) (ihps p hp)

end Form

/-! ## Texts of forms -/

namespace Form

theorem text_array (e : Form) :
    e.array.phrase.text =
      (if e.isOr then '(' :: (e.phrase.text ++ [')']) else e.phrase.text) ++ ['[', ']'] := by
  change Phrase.text (if e.isOr then .last (.group e.phrase) 0 else e.phrase.suffixed) = _
  cases e.isOr with
  | true => simp [Phrase.text, Atom.text, brackets]
  | false => exact Phrase.text_suffixed e.phrase

theorem text_tuple (fs : List Form) :
    (tuple fs).phrase.text = '[' :: (separated (fs.map fun f => f.phrase.text) ++ [']']) := by
  have hphrase : (tuple fs).phrase = .last (.tuple (fs.map phrase)) 0 := fold_tuple _ fs
  rw [hphrase, ← List.append_nil (Phrase.text _), Phrase.last_append, Atom.tuple_append,
    List.map_map]
  rfl

theorem text_function (ps : List (Label × Form)) (r : Form) :
    (function ps r).phrase.text =
      '(' :: (separated (ps.map fun p => p.1.text ++ p.2.phrase.text) ++
        ')' :: ' ' :: '=' :: '>' :: ' ' :: r.phrase.text) := by
  have hphrase : (function ps r).phrase =
      .function (ps.map fun p => (p.1, p.2.phrase)) r.phrase := fold_function _ ps r
  rw [hphrase, ← List.append_nil (Phrase.text _), Phrase.function_append, List.append_nil,
    List.map_map]
  rfl

theorem text_union (f : Form) (fs : List Form) :
    (union f fs).phrase.text =
      [' ', '|', ' '].intercalate ((f :: fs).map fun f => f.phrase.text) := by
  induction fs generalizing f with
  | nil => simp [union]
  | cons g gs ih =>
    have hphrase : (union f (g :: gs)).phrase = f.phrase.followedBy (union g gs).phrase := rfl
    rw [hphrase, Phrase.text_followedBy, ih, List.map_cons, List.map_cons, List.map_cons,
      List.intercalate_cons_cons]
    simp

end Form

/-! ## Forms of types -/

/-- The union of at least two members. -/
def Form.ofMembers? : List Form → Option Form
  | f :: g :: fs => some (.union f (g :: fs))
  | _ => none

/-- A parameter with the form of its type, if its name is plain. -/
def Parameter.form? (form : TypeId → Option Form) (p : Parameter) : Option (Label × Form) :=
  if h : PlainName p.name then (form p.type).map (⟨p.name, p.rest, h⟩, ·) else none

namespace TypeTable

/-- The form of a type that has at most `depth` layers and is made of primitives, arrays, tuples,
unions of at least two members, and functions: anonymous types with one call signature and nothing
else, and with plain names for its parameters. -/
def formWithin (t : TypeTable) : Nat → TypeId → Option Form
  | 0, _ => none
  | depth + 1, id =>
    let form := formWithin t depth
    match t.resolve id with
    | .primitive p => some (.primitive p)
    | .array element => (form element).map .array
    | .tuple elements => (elements.mapM form).map .tuple
    | .union members => (members.mapM form).bind Form.ofMembers?
    | .object ⟨none, [], [s], []⟩ => do
      return .function (← s.params.mapM (Parameter.form? form)) (← form s.returnType)
    | _ => none

/-- What the forms of the parts of a type make of it. -/
inductive Spelled (form : TypeId → Option Form) : Ty → Form → Prop where
  | primitive (p : Primitive) : Spelled form (.primitive p) (.primitive p)
  | array {e : TypeId} {f : Form} (he : form e = some f) : Spelled form (.array e) (.array f)
  | tuple {es : List TypeId} {fs : List Form} (hes : es.map form = fs.map some) :
    Spelled form (.tuple es) (.tuple fs)
  | union {ms : List TypeId} {f g : Form} {fs : List Form}
    (hms : ms.map form = (f :: g :: fs).map some) : Spelled form (.union ms) (.union f (g :: fs))
  | function {params : List Parameter} {ps : List (Label × Form)} {result : TypeId} {r : Form}
    (hparams : params.map (Parameter.form? form) = ps.map some) (hresult : form result = some r) :
    Spelled form (.object ⟨none, [], [⟨params, result⟩], []⟩) (.function ps r)

variable {t : TypeTable}

theorem spelled_of_form {depth : Nat} {id : TypeId} {f : Form}
    (h : t.formWithin (depth + 1) id = some f) :
    Spelled (t.formWithin depth) (t.resolve id) f := by
  simp only [formWithin] at h
  split at h
  case h_1 p hty =>
    cases h
    rw [hty]
    exact .primitive p
  case h_2 e hty =>
    obtain ⟨g, he, rfl⟩ := Option.map_eq_some_iff.1 h
    rw [hty]
    exact .array he
  case h_3 es hty =>
    obtain ⟨fs, hes, rfl⟩ := Option.map_eq_some_iff.1 h
    rw [hty]
    exact .tuple (mapM_eq_some_iff.1 hes)
  case h_4 ms hty =>
    obtain ⟨fs, hms, hfs⟩ := Option.bind_eq_some_iff.1 h
    rw [hty]
    match fs, hfs with
    | f :: g :: fs, rfl => exact .union (mapM_eq_some_iff.1 hms)
  case h_5 s hty =>
    obtain ⟨ps, hps, h⟩ := Option.bind_eq_some_iff.1 h
    obtain ⟨r, hr, h⟩ := Option.bind_eq_some_iff.1 h
    cases h
    rw [hty]
    exact .function (mapM_eq_some_iff.1 hps) hr
  case h_6 => cases h

theorem isUnion_resolve {depth : Nat} {id : TypeId} {f : Form}
    (h : t.formWithin depth id = some f) : (t.resolve id).isUnion = f.isOr := by
  cases depth with
  | zero => cases h
  | succ depth =>
    have hspelled := spelled_of_form h
    generalize t.resolve id = ty at hspelled
    cases hspelled <;> rfl

theorem toList_parameterText {form : TypeId → Option Form} {show_ : TypeId → String}
    (h : ∀ id f, form id = some f → (show_ id).toList = f.phrase.text) (p : Parameter)
    (q : Label × Form) (hp : p.form? form = some q) :
    (parameterText show_ p).toList = q.1.text ++ q.2.phrase.text := by
  rw [Parameter.form?] at hp
  split at hp
  case isTrue hplain =>
    obtain ⟨f, hf, rfl⟩ := Option.map_eq_some_iff.1 hp
    have htype := h p.type f hf
    cases hrest : p.rest <;> simp [parameterText, Label.text, hrest, htype]
  case isFalse => cases hp

/-- A row of texts is the row of what is said of their forms. -/
theorem toList_sequenceText {α β : Type} {form : α → Option β} {text : α → String}
    {said : β → List Char} (h : ∀ a b, form a = some b → (text a).toList = said b) {as : List α}
    {bs : List β} (hforms : as.map form = bs.map some) (separator : String) :
    (sequenceText separator (as.map text)).toList =
      separator.toList.intercalate (bs.map said) := by
  have hmap : as.map (fun a => (text a).toList) = bs.map said := by
    induction as generalizing bs with
    | nil =>
      cases bs with
      | nil => rfl
      | cons b bs => cases hforms
    | cons a as ih =>
      cases bs with
      | nil => cases hforms
      | cons b bs =>
        obtain ⟨hab, hrest⟩ := List.cons.inj hforms
        rw [List.map_cons, List.map_cons, h a b hab, ih hrest]
  rw [sequenceText, String.toList_intercalate, List.map_map, ← hmap]
  rfl

/-- **A type is displayed as its form says.** -/
theorem toList_textWithin {depth : Nat} {id : TypeId} {f : Form}
    (h : t.formWithin depth id = some f) : (t.textWithin depth id).toList = f.phrase.text := by
  induction depth generalizing id f with
  | zero => cases h
  | succ depth ih =>
    have hparts : ∀ id f, t.formWithin depth id = some f →
        (t.textWithin depth id).toList = f.phrase.text := fun _ _ => ih
    have hspelled := spelled_of_form h
    rw [textWithin]
    generalize t.resolve id = ty at hspelled
    cases hspelled with
    | primitive p => exact (List.append_nil _).symm
    | @array e f he =>
      rw [Form.text_array]
      dsimp only
      rw [isUnion_resolve he]
      cases f.isOr <;> simp [ih he]
    | tuple hes => simp [Form.text_tuple, separated, toList_sequenceText hparts hes]
    | union hms => exact (toList_sequenceText hparts hms " | ").trans (Form.text_union _ _).symm
    | @function params ps result r hparams hresult =>
      have htext : (signatureText (t.textWithin depth) ⟨params, result⟩).toList =
          (Form.function ps r).phrase.text := by
        simp [Form.text_function, signatureText, separated, ih hresult,
          toList_sequenceText (toList_parameterText hparts) hparams]
      exact htext

/-- **Two types are displayed alike if and only if they read alike**, in one table or in two.  Clear
types read as they are, so that they are displayed alike if and only if they are the same but for
unions in unions. -/
theorem display_eq_iff_reading {t u : TypeTable} {a b : TypeId} {f g : Form}
    (ha : t.formWithin 9 a = some f) (hb : u.formWithin 9 b = some g) :
    (t.display a = u.display b ↔ f.reading = g.reading) ∧
      (f.Clear → g.Clear → (t.display a = u.display b ↔ f.flat = g.flat)) := by
  have hdisplay : t.display a = u.display b ↔ f.reading = g.reading := by
    rw [display, display, ← String.toList_inj, toList_textWithin ha, toList_textWithin hb]
    exact Form.text_eq_iff_reading
  refine ⟨hdisplay, fun hf hg => ?_⟩
  rw [hdisplay, hf.reading_eq, hg.reading_eq]

/-- `number | [string, void]` as a member of a union with a function, and its members in one union
with the function. -/
def nestedTable : TypeTable :=
  ⟨primitives.entries ++ #[.tuple [⟨8⟩, ⟨3⟩], .union [⟨7⟩, ⟨9⟩], .union [⟨8⟩, ⟨3⟩], .array ⟨11⟩,
    .object { callSignatures := [⟨[⟨"x", ⟨7⟩, false⟩, ⟨"xs", ⟨12⟩, true⟩], ⟨6⟩⟩] },
    .union [⟨10⟩, ⟨13⟩], .union [⟨7⟩, ⟨9⟩, ⟨13⟩]]⟩

theorem display_eq_nested :
    let pair : Form := .tuple [.primitive .string, .primitive .void]
    let function : Form := .function [(⟨"x", false, by decide⟩, .primitive .number),
      (⟨"xs", true, by decide⟩, .array (.or (.primitive .string) (.primitive .void)))]
      (.primitive .boolean)
    nestedTable.formWithin 9 ⟨14⟩ = some (.or (.or (.primitive .number) pair) function) ∧
      nestedTable.formWithin 9 ⟨15⟩ = some (.or (.primitive .number) (.or pair function)) ∧
      nestedTable.display ⟨14⟩ = nestedTable.display ⟨15⟩ ∧
      nestedTable.display ⟨15⟩ =
        "number | [string, void] | (x: number, ...xs: (string | void)[]) => boolean" := by
  intro pair function
  have hpair : pair.Clear := .tuple (by simp [Form.Clear.primitive])
  have hunion : (Form.or (.primitive .string) (.primitive .void)).Clear :=
    .or (.primitive _) (.primitive _) rfl
  have hfunction : function.Clear :=
    .function (by simp [Form.Clear.primitive, Form.Clear.array hunion rfl]) (.primitive _)
  have hnested : nestedTable.formWithin 9 ⟨14⟩ =
    some (.or (.or (.primitive .number) pair) function) := rfl
  have hflat : nestedTable.formWithin 9 ⟨15⟩ =
    some (.or (.primitive .number) (.or pair function)) := rfl
  refine ⟨hnested, hflat, ?_, by cbv⟩
  refine ((display_eq_iff_reading hnested hflat).2 ?_ ?_).2 rfl
  · exact .or (.or (.primitive _) hpair rfl) hfunction rfl
  · exact .or (.primitive _) (.or hpair hfunction rfl) rfl

/-- `(() => void)[]` and `() => void[]`, and `(() => void) | number` and `() => void | number`. -/
def callbackTable : TypeTable :=
  ⟨primitives.entries ++ #[.object { callSignatures := [⟨[], ⟨3⟩⟩] }, .array ⟨9⟩, .array ⟨3⟩,
    .object { callSignatures := [⟨[], ⟨11⟩⟩] }, .union [⟨9⟩, ⟨7⟩], .union [⟨3⟩, ⟨7⟩],
    .object { callSignatures := [⟨[], ⟨14⟩⟩] }]⟩

/-- **Parentheses around functions are missing**: an array of functions is displayed as a function
to an array, and a union that starts with a function as a function to a union. -/
theorem display_functions_alike :
    let void : Form := .primitive .void
    let number : Form := .primitive .number
    (callbackTable.formWithin 9 ⟨10⟩ = some (.array (.function [] void)) ∧
      callbackTable.formWithin 9 ⟨12⟩ = some (.function [] (.array void)) ∧
      (Form.array (.function [] void)).flat ≠ (Form.function [] (.array void)).flat ∧
      callbackTable.display ⟨10⟩ = "() => void[]" ∧
      callbackTable.display ⟨12⟩ = "() => void[]") ∧
    (callbackTable.formWithin 9 ⟨13⟩ = some (.or (.function [] void) number) ∧
      callbackTable.formWithin 9 ⟨15⟩ = some (.function [] (.or void number)) ∧
      (Form.or (.function [] void) number).flat ≠ (Form.function [] (.or void number)).flat ∧
      callbackTable.display ⟨13⟩ = "() => void | number" ∧
      callbackTable.display ⟨15⟩ = "() => void | number") := by
  refine ⟨⟨rfl, rfl, nofun, ?_, ?_⟩, rfl, rfl, nofun, ?_, ?_⟩
  all_goals cbv

end TypeTable

end ResultLint
