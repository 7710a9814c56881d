import Mathlib.Data.List.Basic
import ResultLint.Types.Basic

/-!
# How type texts read

A type text is a row of alternatives.  Each is a primitive, a tuple or a text in parentheses with
pairs of brackets after it, or it is a function, and then everything that follows belongs to its
result.  A **phrase** is a text read in this way.

* `Phrase.text`: the text of a phrase.
* `separated_unique`: lists between marks are told apart by their items.
* `Phrase.reads`: **a text reads in one way only**, in front of anything that closes it.
* `Phrase.suffixed`, `Phrase.followedBy`: what brackets and alternatives after a phrase make of it.
-/

namespace ResultLint

/-! ## Words and marks -/

/-- The characters that type texts are put together with. -/
def isMark (c : Char) : Bool := "()[]:,|.=> ".toList.contains c

/-- A name that is written without marks. -/
def PlainName (s : String) : Prop := s.toList ≠ [] ∧ ∀ c ∈ s.toList, isMark c = false

instance : DecidablePred PlainName := fun s =>
  -- by the characters of the name, not by all characters there are
  @instDecidableAnd (s.toList ≠ []) _ inferInstance
    (List.decidableBAll (isMark · = false) s.toList)

theorem Primitive.plainName (p : Primitive) : PlainName p.name := by
  cases p <;> decide

theorem Primitive.name_injective {p q : Primitive} (h : p.name = q.name) : p = q := by
  revert h
  cases p <;> cases q <;> decide

/-- The text goes on with a mark, if at all. -/
def EndsWord (r : List Char) : Prop := ∀ c, r.head? = some c → isMark c = true

/-- The text goes on with a mark that closes something or separates it from the next. -/
def Closes (r : List Char) : Prop := ∀ c, r.head? = some c → c = ')' ∨ c = ']' ∨ c = ','

theorem endsWord_cons {c : Char} {r : List Char} (h : isMark c = true) : EndsWord (c :: r) := by
  rintro _ ⟨⟩
  exact h

theorem Closes.endsWord {r : List Char} (h : Closes r) : EndsWord r := by
  intro c hc
  rcases h c hc with rfl | rfl | rfl <;> decide

theorem Closes.head_ne {r : List Char} (h : Closes r) {c : Char} (hround : c ≠ ')')
    (hsquare : c ≠ ']') (hcomma : c ≠ ',') : r.head? ≠ some c := by
  intro hc
  rcases h c hc with rfl | rfl | rfl
  · exact hround rfl
  · exact hsquare rfl
  · exact hcomma rfl

theorem closes_cons {c : Char} {r : List Char} (h : c = ')' ∨ c = ']' ∨ c = ',') :
    Closes (c :: r) := by
  rintro _ ⟨⟩
  exact h

/-- **Words are told apart by the marks after them.** -/
theorem word_unique {w w' r r' : List Char} (hw : ∀ c ∈ w, isMark c = false)
    (hw' : ∀ c ∈ w', isMark c = false) (hr : EndsWord r) (hr' : EndsWord r')
    (h : w ++ r = w' ++ r') : w = w' ∧ r = r' := by
  induction w generalizing w' with
  | nil =>
    cases w' with
    | nil => exact ⟨rfl, h⟩
    | cons c w' =>
      have hmark := hr c (by rw [List.nil_append] at h; rw [h]; rfl)
      rw [hw' c List.mem_cons_self] at hmark
      cases hmark
  | cons c w ih =>
    cases w' with
    | nil =>
      have hmark := hr' c (by rw [List.nil_append] at h; rw [← h]; rfl)
      rw [hw c List.mem_cons_self] at hmark
      cases hmark
    | cons c' w' =>
      obtain ⟨rfl, hrest⟩ := List.cons.inj h
      obtain ⟨rfl, rfl⟩ := ih (fun c hc => hw c (List.mem_cons_of_mem _ hc))
        (fun c hc => hw' c (List.mem_cons_of_mem _ hc)) hrest
      exact ⟨rfl, rfl⟩

def brackets : Nat → List Char
  | 0 => []
  | n + 1 => '[' :: ']' :: brackets n

theorem brackets_succ (n : Nat) : brackets (n + 1) = brackets n ++ ['[', ']'] := by
  induction n with
  | zero => rfl
  | succ n ih => exact congrArg (fun r => '[' :: ']' :: r) ih

theorem brackets_unique {k l : Nat} {r r' : List Char} (hr : r.head? ≠ some '[')
    (hr' : r'.head? ≠ some '[') (h : brackets k ++ r = brackets l ++ r') : k = l ∧ r = r' := by
  induction k generalizing l with
  | zero =>
    cases l with
    | zero => exact ⟨rfl, h⟩
    | succ l => exact absurd (congrArg List.head? h) hr
  | succ k ih =>
    cases l with
    | zero => exact absurd (congrArg List.head? h).symm hr'
    | succ l =>
      obtain ⟨rfl, rfl⟩ := ih (List.cons.inj (List.cons.inj h).2).2
      exact ⟨rfl, rfl⟩

theorem endsWord_brackets {k : Nat} {r : List Char} (h : EndsWord r) :
    EndsWord (brackets k ++ r) := by
  cases k with
  | zero => exact h
  | succ k => exact endsWord_cons (by decide)

/-! ## Lists -/

/-- Texts with commas between them. -/
def separated (texts : List (List Char)) : List Char := [',', ' '].intercalate texts

/-- What follows the first text. -/
def separatedRest : List (List Char) → List Char
  | [] => []
  | x :: xs => ',' :: ' ' :: separated (x :: xs)

theorem separated_cons (x : List Char) (xs : List (List Char)) :
    separated (x :: xs) = x ++ separatedRest xs := by
  cases xs with
  | nil => simp [separated, separatedRest]
  | cons y ys =>
    rw [separated, List.intercalate_cons_cons]
    simp [separatedRest, separated]

theorem closes_separatedRest (xs : List (List Char)) {close : Char} (r : List Char)
    (hclose : close = ')' ∨ close = ']') : Closes (separatedRest xs ++ close :: r) := by
  cases xs with
  | nil => exact closes_cons (by tauto)
  | cons x xs => exact closes_cons (by tauto)

/-- **Lists between marks are told apart by their items**, if each item is told apart from others in
front of what closes it, and none starts with the mark that ends the list. -/
theorem separated_unique {α : Type} {text : α → List Char} {close : Char}
    (hclose : close = ')' ∨ close = ']') (hstart : ∀ x s, (text x ++ s).head? ≠ some close)
    {xs ys : List α}
    (hread : ∀ x ∈ xs, ∀ y s s', Closes s → Closes s' → text x ++ s = text y ++ s' → x = y ∧ s = s')
    {r r' : List Char}
    (h : separated (xs.map text) ++ close :: r = separated (ys.map text) ++ close :: r') :
    xs = ys ∧ r = r' := by
  induction xs generalizing ys with
  | nil =>
    cases ys with
    | nil => exact ⟨rfl, (List.cons.inj h).2⟩
    | cons y ys =>
      rw [List.map_cons, separated_cons, List.append_assoc] at h
      exact absurd (congrArg List.head? h).symm (hstart y _)
  | cons x xs ih =>
    cases ys with
    | nil =>
      rw [List.map_cons, separated_cons, List.append_assoc] at h
      exact absurd (congrArg List.head? h) (hstart x _)
    | cons y ys =>
      rw [List.map_cons, List.map_cons, separated_cons, separated_cons, List.append_assoc,
        List.append_assoc] at h
      obtain ⟨rfl, hrest⟩ := hread x List.mem_cons_self y _ _ (closes_separatedRest _ _ hclose)
        (closes_separatedRest _ _ hclose) h
      have hcomma : close ≠ ',' := by rcases hclose with rfl | rfl <;> decide
      -- either both lists end here, or both go on behind a comma
      cases xs with
      | nil =>
        cases ys with
        | nil => exact ⟨rfl, (List.cons.inj hrest).2⟩
        | cons y ys => exact absurd (List.cons.inj hrest).1 hcomma
      | cons x' xs =>
        cases ys with
        | nil => exact absurd (List.cons.inj hrest).1.symm hcomma
        | cons y ys =>
          have hnext : separated ((x' :: xs).map text) ++ close :: r =
              separated ((y :: ys).map text) ++ close :: r' :=
            (List.cons.inj (List.cons.inj hrest).2).2
          obtain ⟨heq, rfl⟩ := ih (fun x hx => hread x (List.mem_cons_of_mem _ hx)) hnext
          exact ⟨congrArg (x :: ·) heq, rfl⟩

/-! ## Phrases -/

/-- What is written of a parameter besides its type. -/
structure Label where
  name : String
  rest : Bool
  plain : PlainName name

mutual

/-- A text from one alternative on. -/
inductive Phrase where
  | last (a : Atom) (dims : Nat)
  | or (a : Atom) (dims : Nat) (rest : Phrase)
  | function (params : List (Label × Phrase)) (result : Phrase)

/-- What pairs of brackets may follow.  A group has one pair to itself. -/
inductive Atom where
  | primitive (p : Primitive)
  | tuple (elements : List Phrase)
  | group (p : Phrase)

end

def Label.text (l : Label) : List Char :=
  (if l.rest then ['.', '.', '.'] else []) ++ (l.name.toList ++ [':', ' '])

mutual

def Phrase.text : Phrase → List Char
  | .last a dims => a.text ++ brackets dims
  | .or a dims rest => a.text ++ (brackets dims ++ ' ' :: '|' :: ' ' :: rest.text)
  | .function params result =>
    '(' :: (separated (Phrase.paramTexts params) ++ ')' :: ' ' :: '=' :: '>' :: ' ' :: result.text)

def Atom.text : Atom → List Char
  | .primitive p => p.name.toList
  | .tuple elements => '[' :: (separated (Phrase.texts elements) ++ [']'])
  | .group p => '(' :: (p.text ++ [')', '[', ']'])

def Phrase.texts : List Phrase → List (List Char)
  | [] => []
  | p :: ps => p.text :: Phrase.texts ps

def Phrase.paramTexts : List (Label × Phrase) → List (List Char)
  | [] => []
  | (l, p) :: ps => (l.text ++ p.text) :: Phrase.paramTexts ps

end

def Phrase.paramText (param : Label × Phrase) : List Char := param.1.text ++ param.2.text

/-- A recursion over a list that does the same to each item is a map. -/
theorem eq_map_of_cons {α β : Type} {f : α → β} {g : List α → List β} (hnil : g [] = [])
    (hcons : ∀ x xs, g (x :: xs) = f x :: g xs) (xs : List α) : g xs = xs.map f := by
  induction xs with
  | nil => exact hnil
  | cons x xs ih => rw [hcons, ih, List.map_cons]

theorem Phrase.texts_eq_map (ps : List Phrase) : texts ps = ps.map text :=
  eq_map_of_cons rfl (fun _ _ => rfl) ps

theorem Phrase.paramTexts_eq_map (ps : List (Label × Phrase)) :
    paramTexts ps = ps.map paramText :=
  eq_map_of_cons rfl (fun _ _ => rfl) ps

/-! Texts with something after them, from left to right. -/

section

variable (s : List Char)

theorem Phrase.last_append (a : Atom) (dims : Nat) :
    (Phrase.last a dims).text ++ s = a.text ++ (brackets dims ++ s) := by
  rw [text, List.append_assoc]

theorem Phrase.or_append (a : Atom) (dims : Nat) (rest : Phrase) :
    (Phrase.or a dims rest).text ++ s =
      a.text ++ (brackets dims ++ ' ' :: '|' :: ' ' :: (rest.text ++ s)) := by
  simp [text]

theorem Phrase.function_append (params : List (Label × Phrase)) (result : Phrase) :
    (Phrase.function params result).text ++ s =
      '(' :: (separated (params.map paramText) ++ ')' :: ' ' :: '=' :: '>' :: ' ' ::
        (result.text ++ s)) := by
  simp [text, paramTexts_eq_map]

theorem Atom.tuple_append (elements : List Phrase) :
    (Atom.tuple elements).text ++ s =
      '[' :: (separated (elements.map Phrase.text) ++ ']' :: s) := by
  simp [text, Phrase.texts_eq_map]

theorem Atom.group_append (p : Phrase) :
    (Atom.group p).text ++ s = '(' :: (p.text ++ ')' :: '[' :: ']' :: s) := by
  simp [text]

end

/-- Induction over phrases and the atoms in them. -/
theorem Phrase.ind {P : Phrase → Prop} {Q : Atom → Prop}
    (last : ∀ a dims, Q a → P (.last a dims))
    (or : ∀ a dims rest, Q a → P rest → P (.or a dims rest))
    (function : ∀ params result, (∀ p ∈ params, P p.2) → P result → P (.function params result))
    (primitive : ∀ p, Q (.primitive p))
    (tuple : ∀ elements, (∀ e ∈ elements, P e) → Q (.tuple elements))
    (group : ∀ p, P p → Q (.group p)) (p : Phrase) : P p :=
  @Phrase.rec P Q (fun params => ∀ p ∈ params, P p.2) (fun elements => ∀ e ∈ elements, P e)
    (fun param => P param.2) last or function primitive tuple group
    (fun _ h => absurd h List.not_mem_nil) (fun _ _ hp hps => List.forall_mem_cons.2 ⟨hp, hps⟩)
    (fun _ h => absurd h List.not_mem_nil) (fun _ _ hp hps => List.forall_mem_cons.2 ⟨hp, hps⟩)
    (fun _ _ hp => hp) p

/-! ## How a text starts -/

namespace Phrase

/-- A phrase starts with an opening mark or with the name of a primitive. -/
theorem lead (p : Phrase) :
    (∃ c r, p.text = c :: r ∧ (c = '(' ∨ c = '[')) ∨
      ∃ (q : Primitive) (r : List Char), p.text = q.name.toList ++ r ∧
        ∀ c, r.head? = some c → c = '[' ∨ c = ' ' := by
  have hbrackets : ∀ (dims : Nat) (r : List Char), (∀ c, r.head? = some c → c = '[' ∨ c = ' ') →
      ∀ c, (brackets dims ++ r).head? = some c → c = '[' ∨ c = ' ' := by
    intro dims r hr
    cases dims with
    | zero => exact hr
    | succ dims =>
      rintro _ ⟨⟩
      exact Or.inl rfl
  have hatom : ∀ (a : Atom) (r : List Char), (∀ c, r.head? = some c → c = '[' ∨ c = ' ') →
      (∃ c s, a.text ++ r = c :: s ∧ (c = '(' ∨ c = '[')) ∨
        ∃ (q : Primitive) (s : List Char), a.text ++ r = q.name.toList ++ s ∧
          ∀ c, s.head? = some c → c = '[' ∨ c = ' ' := by
    intro a r hr
    cases a with
    | primitive q => exact Or.inr ⟨q, r, rfl, hr⟩
    | tuple elements => exact Or.inl ⟨'[', _, rfl, Or.inr rfl⟩
    | group p => exact Or.inl ⟨'(', _, rfl, Or.inl rfl⟩
  cases p with
  | last a dims =>
    have hend := hbrackets dims [] (by simp)
    rw [List.append_nil] at hend
    exact hatom a _ hend
  | or a dims rest =>
    refine hatom a _ (hbrackets dims _ ?_)
    rintro _ ⟨⟩
    exact Or.inr rfl
  | function params result => exact Or.inl ⟨'(', _, rfl, Or.inl rfl⟩

/-- The first character of a phrase closes nothing. -/
theorem head_text (p : Phrase) (s : List Char) :
    ∃ c, (p.text ++ s).head? = some c ∧ (c = '(' ∨ c = '[' ∨ isMark c = false) := by
  rcases p.lead with ⟨c, r, htext, hc⟩ | ⟨q, r, htext, -⟩
  · refine ⟨c, by rw [htext]; rfl, ?_⟩
    tauto
  · obtain ⟨hne, hplain⟩ := q.plainName
    obtain ⟨c, w, hw⟩ := List.exists_cons_of_ne_nil hne
    refine ⟨c, by rw [htext, hw]; rfl, Or.inr (Or.inr (hplain c ?_))⟩
    rw [hw]
    exact List.mem_cons_self

theorem head_text_ne {p : Phrase} {s : List Char} {c : Char} (hmark : isMark c = true)
    (hround : c ≠ '(') (hsquare : c ≠ '[') : (p.text ++ s).head? ≠ some c := by
  obtain ⟨c', hc', hcases⟩ := p.head_text s
  rw [hc']
  rintro ⟨⟩
  rcases hcases with rfl | rfl | hc
  · exact hround rfl
  · exact hsquare rfl
  · rw [hmark] at hc
    cases hc

end Phrase

namespace Label

theorem eq_of {l l' : Label} (hrest : l.rest = l'.rest) (hname : l.name.toList = l'.name.toList) :
    l = l' := by
  obtain ⟨name, rest, plain⟩ := l
  obtain ⟨name', rest', plain'⟩ := l'
  obtain rfl : name = name' := String.toList_injective hname
  obtain rfl : rest = rest' := hrest
  rfl

/-- A label starts with a dot or with a letter of its name. -/
theorem head_text (l : Label) (s : List Char) :
    ∃ c, (l.text ++ s).head? = some c ∧ if l.rest then c = '.' else isMark c = false := by
  obtain ⟨hne, hplain⟩ := l.plain
  obtain ⟨c, w, hw⟩ := List.exists_cons_of_ne_nil hne
  cases hrest : l.rest with
  | true => exact ⟨'.', by simp [text, hrest], by simp⟩
  | false =>
    refine ⟨c, by simp [text, hrest, hw], ?_⟩
    simpa using hplain c (by rw [hw]; exact List.mem_cons_self)

/-- **Labels are told apart.** -/
theorem text_unique {l l' : Label} {s s' : List Char} (h : l.text ++ s = l'.text ++ s') :
    l = l' ∧ s = s' := by
  obtain ⟨c, hc, hcases⟩ := l.head_text s
  obtain ⟨c', hc', hcases'⟩ := l'.head_text s'
  have hsame : c = c' := by
    rw [h, hc', Option.some.injEq] at hc
    exact hc.symm
  subst hsame
  have hrest : l.rest = l'.rest := by
    cases hr : l.rest <;> cases hr' : l'.rest <;> simp_all [isMark]
  have hname : l.name.toList ++ ':' :: ' ' :: s = l'.name.toList ++ ':' :: ' ' :: s' := by
    simpa [text, hrest] using h
  obtain ⟨heq, htail⟩ := word_unique l.plain.2 l'.plain.2 (endsWord_cons (by decide))
    (endsWord_cons (by decide)) hname
  exact ⟨eq_of hrest heq, (List.cons.inj (List.cons.inj htail).2).2⟩

end Label

/-! ## Reading in one way -/

namespace Phrase

/-- The first mark of a text in parentheses is no colon. -/
theorem exists_first_mark (p : Phrase) (s : List Char) :
    ∃ w c r, p.text ++ ')' :: s = w ++ c :: r ∧ (∀ x ∈ w, isMark x = false) ∧
      isMark c = true ∧ c ≠ ':' := by
  rcases p.lead with ⟨c, r, htext, hc⟩ | ⟨q, r, htext, hr⟩
  · refine ⟨[], c, r ++ ')' :: s, by rw [htext]; rfl, by simp, ?_⟩
    rcases hc with rfl | rfl <;> decide
  · have hw : ∀ x ∈ q.name.toList, isMark x = false := q.plainName.2
    rw [htext, List.append_assoc]
    cases r with
    | nil => exact ⟨q.name.toList, ')', s, rfl, hw, by decide⟩
    | cons c r =>
      refine ⟨q.name.toList, c, r ++ ')' :: s, rfl, hw, ?_⟩
      rcases hr c rfl with rfl | rfl <;> decide

/-- **No text in parentheses is a list of parameters**: a name in front of a colon is no type. -/
theorem text_ne_params (p : Phrase) (params : List (Label × Phrase)) (s s' : List Char) :
    p.text ++ ')' :: s ≠ separated (params.map paramText) ++ ')' :: s' := by
  intro h
  cases params with
  | nil => exact head_text_ne (by decide) (by decide) (by decide) (congrArg List.head? h)
  | cons param params =>
    obtain ⟨l, q⟩ := param
    rw [List.map_cons, separated_cons, paramText, List.append_assoc, List.append_assoc] at h
    cases hrest : l.rest with
    | true =>
      have hdot : (p.text ++ ')' :: s).head? = some '.' := by
        rw [h]
        simp [Label.text, hrest]
      exact head_text_ne (by decide) (by decide) (by decide) hdot
    | false =>
      obtain ⟨w, c, r, htext, hw, hmark, hcolon⟩ := p.exists_first_mark s
      have hlabel : w ++ c :: r = l.name.toList ++
          ':' :: ' ' :: (q.text ++ (separatedRest (params.map paramText) ++ ')' :: s')) := by
        rw [← htext, h]
        simp [Label.text, hrest]
      obtain ⟨-, htail⟩ := word_unique hw l.plain.2 (endsWord_cons hmark)
        (endsWord_cons (by decide)) hlabel
      exact hcolon (List.cons.inj htail).1

/-- An atom and a function do not start alike. -/
theorem atom_ne_function (a : Atom) (params : List (Label × Phrase)) (s s' : List Char) :
    a.text ++ s ≠ '(' :: (separated (params.map paramText) ++ ')' :: s') := by
  intro h
  cases a with
  | primitive q =>
    obtain ⟨hne, hplain⟩ := q.plainName
    obtain ⟨c, w, hw⟩ := List.exists_cons_of_ne_nil hne
    have hmark := hplain c (by rw [hw]; exact List.mem_cons_self)
    rw [Atom.text, hw] at h
    obtain ⟨rfl, -⟩ := List.cons.inj h
    exact absurd hmark (by decide)
  | tuple elements => exact absurd (List.cons.inj h).1 (by decide)
  | group p =>
    rw [Atom.group_append] at h
    exact text_ne_params p params _ _ (List.cons.inj h).2

/-- The atom is told apart from others, in front of any mark. -/
def AtomReads (a : Atom) : Prop :=
  ∀ b r r', EndsWord r → EndsWord r' → a.text ++ r = b.text ++ r' → a = b ∧ r = r'

/-- The phrase is told apart from others, in front of anything that closes it. -/
def Reads (p : Phrase) : Prop :=
  ∀ q r r', Closes r → Closes r' → p.text ++ r = q.text ++ r' → p = q ∧ r = r'

theorem atomReads_primitive (p : Primitive) : AtomReads (.primitive p) := by
  intro b r r' hr hr' h
  obtain ⟨hne, hplain⟩ := p.plainName
  obtain ⟨c, w, hw⟩ := List.exists_cons_of_ne_nil hne
  have hmark : isMark c = false := hplain c (by rw [hw]; exact List.mem_cons_self)
  have hhead : (b.text ++ r').head? = some c := by
    rw [← h, Atom.text, hw]
    rfl
  cases b with
  | primitive q =>
    obtain ⟨hname, rfl⟩ := word_unique hplain q.plainName.2 hr hr' h
    rw [Primitive.name_injective (String.toList_injective hname)]
    exact ⟨rfl, rfl⟩
  | tuple elements =>
    cases hhead
    exact absurd hmark (by decide)
  | group q =>
    cases hhead
    exact absurd hmark (by decide)

theorem atomReads_tuple {elements : List Phrase} (h : ∀ e ∈ elements, e.Reads) :
    AtomReads (.tuple elements) := by
  intro b r r' hr hr' heq
  cases b with
  | primitive q =>
    obtain ⟨hq, -⟩ := atomReads_primitive q _ _ _ hr' hr heq.symm
    cases hq
  | tuple elements' =>
    rw [Atom.tuple_append, Atom.tuple_append] at heq
    obtain ⟨rfl, rfl⟩ := separated_unique (Or.inr rfl)
      (fun e s => head_text_ne (by decide) (by decide) (by decide)) h (List.cons.inj heq).2
    exact ⟨rfl, rfl⟩
  | group q => exact absurd (List.cons.inj heq).1 (by decide)

theorem atomReads_group {p : Phrase} (h : p.Reads) : AtomReads (.group p) := by
  intro b r r' hr hr' heq
  cases b with
  | primitive q =>
    obtain ⟨hq, -⟩ := atomReads_primitive q _ _ _ hr' hr heq.symm
    cases hq
  | tuple elements => exact absurd (List.cons.inj heq).1 (by decide)
  | group q =>
    rw [Atom.group_append, Atom.group_append] at heq
    obtain ⟨rfl, htail⟩ := h q _ _ (closes_cons (Or.inl rfl)) (closes_cons (Or.inl rfl))
      (List.cons.inj heq).2
    exact ⟨rfl, (List.cons.inj (List.cons.inj (List.cons.inj htail).2).2).2⟩

theorem brackets_ne_space {k l : Nat} {r s : List Char} (hr : Closes r) :
    brackets k ++ r ≠ brackets l ++ ' ' :: s := by
  intro h
  obtain ⟨-, rfl⟩ := brackets_unique (hr.head_ne (by decide) (by decide) (by decide)) (by simp) h
  exact hr.head_ne (by decide) (by decide) (by decide) (List.head?_cons)

theorem paramText_head_ne (param : Label × Phrase) (s : List Char) :
    (paramText param ++ s).head? ≠ some ')' := by
  obtain ⟨l, p⟩ := param
  obtain ⟨c, hc, hcases⟩ := l.head_text (p.text ++ s)
  rw [paramText, List.append_assoc, hc]
  rintro ⟨⟩
  split at hcases
  · exact absurd hcases (by decide)
  · exact absurd hcases (by decide)

theorem paramText_unique {param : Label × Phrase} (h : param.2.Reads) (param' : Label × Phrase)
    (s s' : List Char) (hs : Closes s) (hs' : Closes s')
    (heq : paramText param ++ s = paramText param' ++ s') : param = param' ∧ s = s' := by
  obtain ⟨l, p⟩ := param
  obtain ⟨l', p'⟩ := param'
  rw [paramText, paramText, List.append_assoc, List.append_assoc] at heq
  obtain ⟨rfl, htail⟩ := Label.text_unique heq
  obtain ⟨rfl, rfl⟩ := h p' s s' hs hs' htail
  exact ⟨rfl, rfl⟩

theorem reads_last {a : Atom} (h : AtomReads a) (dims : Nat) : (Phrase.last a dims).Reads := by
  intro q r r' hr hr' heq
  rw [last_append] at heq
  cases q with
  | last b dims' =>
    rw [last_append] at heq
    obtain ⟨rfl, htail⟩ := h b _ _ (endsWord_brackets hr.endsWord)
      (endsWord_brackets hr'.endsWord) heq
    obtain ⟨rfl, rfl⟩ := brackets_unique (hr.head_ne (by decide) (by decide) (by decide))
      (hr'.head_ne (by decide) (by decide) (by decide)) htail
    exact ⟨rfl, rfl⟩
  | or b dims' rest =>
    rw [or_append] at heq
    obtain ⟨rfl, htail⟩ := h b _ _ (endsWord_brackets hr.endsWord)
      (endsWord_brackets (endsWord_cons (by decide))) heq
    exact absurd htail (brackets_ne_space hr)
  | function params result =>
    rw [function_append] at heq
    exact absurd heq (atom_ne_function a params _ _)

theorem reads_or {a : Atom} (h : AtomReads a) (dims : Nat) {rest : Phrase} (hrest : rest.Reads) :
    (Phrase.or a dims rest).Reads := by
  intro q r r' hr hr' heq
  cases q with
  | last b dims' =>
    rw [or_append, last_append] at heq
    obtain ⟨rfl, htail⟩ := h b _ _ (endsWord_brackets (endsWord_cons (by decide)))
      (endsWord_brackets hr'.endsWord) heq
    exact absurd htail.symm (brackets_ne_space hr')
  | or b dims' rest' =>
    rw [or_append, or_append] at heq
    obtain ⟨rfl, htail⟩ := h b _ _ (endsWord_brackets (endsWord_cons (by decide)))
      (endsWord_brackets (endsWord_cons (by decide))) heq
    obtain ⟨rfl, hbar⟩ := brackets_unique (by simp) (by simp) htail
    obtain ⟨rfl, rfl⟩ := hrest rest' r r' hr hr'
      (List.cons.inj (List.cons.inj (List.cons.inj hbar).2).2).2
    exact ⟨rfl, rfl⟩
  | function params result =>
    rw [or_append, function_append] at heq
    exact absurd heq (atom_ne_function a params _ _)

theorem reads_function {params : List (Label × Phrase)} {result : Phrase}
    (hparams : ∀ p ∈ params, p.2.Reads) (hresult : result.Reads) :
    (Phrase.function params result).Reads := by
  intro q r r' hr hr' heq
  rw [function_append] at heq
  cases q with
  | last b dims =>
    rw [last_append] at heq
    exact absurd heq.symm (atom_ne_function b params _ _)
  | or b dims rest =>
    rw [or_append] at heq
    exact absurd heq.symm (atom_ne_function b params _ _)
  | function params' result' =>
    rw [function_append] at heq
    obtain ⟨rfl, htail⟩ := separated_unique (Or.inl rfl) paramText_head_ne
      (fun param hparam => paramText_unique (hparams param hparam)) (List.cons.inj heq).2
    simp only [List.cons.injEq, true_and] at htail
    obtain ⟨rfl, rfl⟩ := hresult result' r r' hr hr' htail
    exact ⟨rfl, rfl⟩

/-- **A text reads in one way only.** -/
theorem reads (p : Phrase) : p.Reads := by
  induction p using Phrase.ind (Q := AtomReads) with
  | last a dims ha => exact reads_last ha dims
  | or a dims rest ha hrest => exact reads_or ha dims hrest
  | function params result hparams hresult => exact reads_function hparams hresult
  | primitive p => exact atomReads_primitive p
  | tuple elements h => exact atomReads_tuple h
  | group p h => exact atomReads_group h

theorem text_injective {p q : Phrase} (h : p.text = q.text) : p = q := by
  have hnil : Closes [] := fun _ hc => by cases hc
  exact (p.reads q [] [] hnil hnil (by rw [h])).1

/-! ## Longer phrases -/

/-- The phrase with a pair of brackets after it. -/
def suffixed : Phrase → Phrase
  | last a dims => last a (dims + 1)
  | or a dims rest => or a dims rest.suffixed
  | function params result => function params result.suffixed

/-- The phrase with another alternative after it. -/
def followedBy : Phrase → Phrase → Phrase
  | last a dims, q => or a dims q
  | or a dims rest, q => or a dims (rest.followedBy q)
  | function params result, q => function params (result.followedBy q)

theorem text_suffixed : ∀ p : Phrase, p.suffixed.text = p.text ++ ['[', ']']
  | last a dims => by rw [suffixed, text, text, brackets_succ, List.append_assoc]
  | or a dims rest => by simp [suffixed, text, text_suffixed rest]
  | function params result => by simp [suffixed, text, text_suffixed result]

theorem text_followedBy (q : Phrase) :
    ∀ p : Phrase, (p.followedBy q).text = p.text ++ ' ' :: '|' :: ' ' :: q.text
  | last a dims => by simp [followedBy, text]
  | or a dims rest => by simp [followedBy, text, text_followedBy q rest]
  | function params result => by simp [followedBy, text, text_followedBy q result]

theorem followedBy_suffixed (q : Phrase) :
    ∀ p : Phrase, (p.followedBy q).suffixed = p.followedBy q.suffixed
  | last a dims => rfl
  | or a dims rest => by rw [followedBy, suffixed, followedBy_suffixed q rest, followedBy]
  | function params result => by
    rw [followedBy, suffixed, followedBy_suffixed q result, followedBy]

theorem followedBy_assoc (q r : Phrase) :
    ∀ p : Phrase, (p.followedBy q).followedBy r = p.followedBy (q.followedBy r)
  | last a dims => rfl
  | or a dims rest => by rw [followedBy, followedBy, followedBy_assoc q r rest, followedBy]
  | function params result => by
    rw [followedBy, followedBy, followedBy_assoc q r result, followedBy]

end Phrase

end ResultLint
