import ResultLint.Proofs.Json.Scalars

/-!
# Legible values

The text of a value reads back as the value if nothing in it is lost on the way: no number that is
not finite, nothing unusable, integers of 64 bits, and not too many containers in each other.

* `reads_of_legible`: a legible value is read in front of anything that ends it.
* `parse?_render`: **the text of a legible value reads back.**
-/

namespace ResultLint

theorem mapM_eq_some_iff {α β : Type} {f : α → Option β} {l : List α} {r : List β} :
    l.mapM f = some r ↔ l.map f = r.map some := by
  induction l generalizing r with
  | nil => cases r <;> simp
  | cons a l ih =>
    rw [List.mapM_cons, List.map_cons]
    cases hf : f a with
    | none => cases r <;> simp
    | some b =>
      cases r with
      | nil => cases h : l.mapM f <;> simp
      | cons c r =>
        have hr := ih (r := r)
        cases h : l.mapM f with
        | none => simp_all
        | some bs => simp_all

/-- What is read from a list is read from its items. -/
theorem exists_of_mem_mapM {α β : Type} {f : α → Option β} {l : List α} {r : List β}
    (h : l.mapM f = some r) {b : β} (hb : b ∈ r) : ∃ a ∈ l, f a = some b := by
  have hmem : some b ∈ l.map f := by
    rw [mapM_eq_some_iff.1 h]
    exact List.mem_map_of_mem hb
  exact List.mem_map.1 hmem

namespace Json

/-- The value can be written and read back inside containers that leave `room` for more. -/
inductive Legible : Nat → Json → Prop
  | null (room : Nat) : Legible room null
  | bool (room : Nat) (b : Bool) : Legible room (bool b)
  | integer (room : Nat) {i : Int} (hi : Has64Bits i) : Legible room (integer i)
  | float (room : Nat) {x : Binary64} (hx : x.ReadsBack) : Legible room (float x)
  | string (room : Nat) (s : String) : Legible room (string s)
  | array {room : Nat} {items : List Json} (h : ∀ item ∈ items, Legible room item) :
      Legible (room + 1) (array items)
  | object {room : Nat} {fields : List (String × Json)}
      (h : ∀ field ∈ fields, Legible room field.2) : Legible (room + 1) (object fields)

/-- With two calls for each character of its text, the value is read in front of anything that ends
it. -/
def Reads (room : Nat) (j : Json) : Prop :=
  ∀ (fuel : Nat) (rest : List Char), 2 * (render j).toList.length ≤ fuel → Stops rest →
    ∃ r, value? (fuel + 1) room ((render j).toList ++ rest) = some (j, r) ∧
      skipBlank r = skipBlank rest

/-! ## Arrays -/

theorem items?_skipBlank (fuel room : Nat) (cs : List Char) :
    items? fuel room (skipBlank cs) = items? fuel room cs := by
  cases fuel with
  | zero => rw [items?, items?]
  | succ fuel => rw [items?, items?, value?_skipBlank]

/-- No value starts with a closing bracket. -/
theorem skipBlank_ne_bracket {fuel room : Nat} {cs : List Char} {answer : List Json × List Char}
    (h : items? fuel room cs = some answer) (t : List Char) : skipBlank cs ≠ ']' :: t := by
  intro hcs
  cases fuel with
  | zero =>
    rw [items?] at h
    cases h
  | succ fuel =>
    cases fuel with
    | zero =>
      rw [items?, value?] at h
      cases h
    | succ fuel =>
      rw [items?, value?, hcs] at h
      cases h

theorem items?_cons {fuel room : Nat} {cs r t : List Char} {item : Json}
    (hvalue : value? fuel room cs = some (item, r)) (hr : skipBlank r = ',' :: t) :
    items? (fuel + 1) room cs =
      (items? fuel room t).map fun (items, rest) => (item :: items, rest) := by
  simp only [items?, hvalue, hr]

theorem items?_singleton {fuel room : Nat} {cs r t : List Char} {item : Json}
    (hvalue : value? fuel room cs = some (item, r)) (hr : skipBlank r = ']' :: t) :
    items? (fuel + 1) room cs = some ([item], t) := by
  simp only [items?, hvalue, hr]

/-- The text between the brackets of an array. -/
def itemsText (items : List Json) : List Char :=
  [','].intercalate ((renderItems items).map String.toList)

theorem toList_render_array (items : List Json) :
    (render (.array items)).toList = '[' :: (itemsText items ++ [']']) := by
  rw [render, String.toList_append, String.toList_append, String.toList_intercalate]
  rfl

theorem itemsText_singleton (item : Json) : itemsText [item] = (render item).toList := by
  simp [itemsText, renderItems]

theorem itemsText_cons_cons (item next : Json) (items : List Json) :
    itemsText (item :: next :: items) =
      (render item).toList ++ ',' :: itemsText (next :: items) := by
  simp [itemsText, renderItems, List.intercalate_cons_cons]

theorem items?_itemsText {room : Nat} {item : Json} {items : List Json}
    (h : ∀ j ∈ item :: items, Reads room j) (fuel : Nat) (rest : List Char)
    (hfuel : 2 * (itemsText (item :: items)).length ≤ fuel) :
    items? (fuel + 2) room (itemsText (item :: items) ++ ']' :: rest) =
      some (item :: items, rest) := by
  induction items generalizing item fuel with
  | nil =>
    rw [itemsText_singleton] at hfuel ⊢
    obtain ⟨r, hvalue, hr⟩ := h item List.mem_cons_self fuel _ hfuel (stops_bracket rest)
    rw [skipBlank_cons rfl] at hr
    exact items?_singleton hvalue hr
  | cons next items ih =>
    rw [itemsText_cons_cons] at hfuel ⊢
    rw [List.length_append, List.length_cons] at hfuel
    obtain ⟨k, rfl⟩ : ∃ k, fuel = k + 1 := ⟨fuel - 1, by omega⟩
    rw [List.append_assoc, List.cons_append]
    obtain ⟨r, hvalue, hr⟩ := h item List.mem_cons_self (k + 1) _ (by omega)
      (stops_comma (itemsText (next :: items) ++ ']' :: rest))
    rw [skipBlank_cons rfl] at hr
    rw [items?_cons hvalue hr, ih (fun j hj => h j (List.mem_cons_of_mem item hj)) k (by omega)]
    rfl

theorem value?_array {fuel room : Nat} {cs t r : List Char} {items : List Json}
    (hcs : skipBlank cs = '[' :: t) (hitems : items? fuel room t = some (items, r)) :
    value? (fuel + 1) (room + 1) cs = some (array items, r) := by
  simp only [value?, hcs]
  split
  next u hu => exact absurd hu (skipBlank_ne_bracket hitems u)
  next =>
    rw [items?_skipBlank, Nat.add_sub_cancel, hitems]
    rfl

theorem reads_array {room : Nat} {items : List Json} (h : ∀ j ∈ items, Reads room j) :
    Reads (room + 1) (array items) := by
  intro fuel rest hfuel _
  refine ⟨rest, ?_, rfl⟩
  rw [toList_render_array] at hfuel ⊢
  rw [List.length_cons, List.length_append, List.length_singleton] at hfuel
  rw [List.cons_append, List.append_assoc, List.singleton_append]
  cases items with
  | nil =>
    rw [value?, skipBlank_cons rfl]
    rfl
  | cons item items =>
    obtain ⟨k, rfl⟩ : ∃ k, fuel = k + 2 := ⟨fuel - 2, by omega⟩
    exact value?_array (skipBlank_cons rfl _) (items?_itemsText h k rest (by omega))

/-! ## Objects -/

theorem toList_quote (s : String) (rest : List Char) :
    (quote s).toList ++ rest = '"' :: (s.toList.flatMap escape ++ '"' :: rest) := by
  simp [quote]

/-- The text between the braces of an object. -/
def fieldsText (fields : List (String × Json)) : List Char :=
  [','].intercalate ((renderFields fields).map String.toList)

theorem toList_render_object (fields : List (String × Json)) :
    (render (.object fields)).toList = '{' :: (fieldsText fields ++ ['}']) := by
  rw [render, String.toList_append, String.toList_append, String.toList_intercalate]
  rfl

/-- The text of a field is its name, a colon and its value. -/
def fieldText (field : String × Json) : List Char :=
  '"' :: (field.1.toList.flatMap escape ++ '"' :: ':' :: (render field.2).toList)

theorem fieldsText_singleton (field : String × Json) : fieldsText [field] = fieldText field := by
  simp [fieldsText, renderFields, fieldText, quote]

theorem fieldsText_cons_cons (field next : String × Json) (fields : List (String × Json)) :
    fieldsText (field :: next :: fields) =
      fieldText field ++ ',' :: fieldsText (next :: fields) := by
  simp [fieldsText, renderFields, fieldText, quote, List.intercalate_cons_cons]

theorem fieldText_append (field : String × Json) (rest : List Char) :
    fieldText field ++ rest = '"' :: (field.1.toList.flatMap escape ++
      '"' :: ':' :: ((render field.2).toList ++ rest)) := by
  simp [fieldText]

theorem fields?_cons {fuel room : Nat} {name : String} {value : Json} {cs r t : List Char}
    (hvalue : value? fuel room cs = some (value, r)) (hr : skipBlank r = ',' :: t) :
    fields? (fuel + 1) room ('"' :: (name.toList.flatMap escape ++ '"' :: ':' :: cs)) =
      (fields? fuel room t).map fun (fs, rest) => ((some name, value) :: fs, rest) := by
  have hquote : ∀ cs, skipBlank ('"' :: cs) = '"' :: cs := skipBlank_cons rfl
  have hcolon : ∀ cs, skipBlank (':' :: cs) = ':' :: cs := skipBlank_cons rfl
  simp only [fields?, hquote, text?_escape, hcolon, hvalue, hr]

theorem fields?_singleton {fuel room : Nat} {name : String} {value : Json} {cs r t : List Char}
    (hvalue : value? fuel room cs = some (value, r)) (hr : skipBlank r = '}' :: t) :
    fields? (fuel + 1) room ('"' :: (name.toList.flatMap escape ++ '"' :: ':' :: cs)) =
      some ([(some name, value)], t) := by
  have hquote : ∀ cs, skipBlank ('"' :: cs) = '"' :: cs := skipBlank_cons rfl
  have hcolon : ∀ cs, skipBlank (':' :: cs) = ':' :: cs := skipBlank_cons rfl
  simp only [fields?, hquote, text?_escape, hcolon, hvalue, hr]

theorem fields?_fieldsText {room : Nat} {field : String × Json} {fields : List (String × Json)}
    (h : ∀ f ∈ field :: fields, Reads room f.2) (fuel : Nat) (rest : List Char)
    (hfuel : 2 * (fieldsText (field :: fields)).length ≤ fuel) :
    fields? (fuel + 2) room (fieldsText (field :: fields) ++ '}' :: rest) =
      some ((field :: fields).map fun f => (some f.1, f.2), rest) := by
  have hlength : ∀ f : String × Json, (render f.2).toList.length ≤ (fieldText f).length := by
    intro f
    simp only [fieldText, List.length_cons, List.length_append]
    omega
  induction fields generalizing field fuel with
  | nil =>
    rw [fieldsText_singleton] at hfuel ⊢
    have hle := hlength field
    obtain ⟨r, hvalue, hr⟩ := h field List.mem_cons_self fuel _ (by omega) (stops_brace rest)
    rw [skipBlank_cons rfl] at hr
    rw [fieldText_append, fields?_singleton hvalue hr]
    rfl
  | cons next fields ih =>
    rw [fieldsText_cons_cons] at hfuel ⊢
    rw [List.length_append, List.length_cons] at hfuel
    obtain ⟨k, rfl⟩ : ∃ k, fuel = k + 1 := ⟨fuel - 1, by omega⟩
    have hle := hlength field
    obtain ⟨r, hvalue, hr⟩ := h field List.mem_cons_self (k + 1) _ (by omega)
      (stops_comma (fieldsText (next :: fields) ++ '}' :: rest))
    rw [skipBlank_cons rfl] at hr
    rw [List.append_assoc, List.cons_append, fieldText_append, fields?_cons hvalue hr,
      ih (fun f hf => h f (List.mem_cons_of_mem field hf)) k (by omega)]
    rfl

theorem ofFields_map (room : Nat) (fields : List (String × Json)) :
    ofFields (room + 1) (fields.map fun f => (some f.1, f.2)) = object fields := by
  have hnames : (fields.map fun f => (some f.1, f.2)).mapM
      (fun f : Option String × Json => f.1.map fun name => (name, f.2)) = some fields := by
    rw [mapM_eq_some_iff, List.map_map]
    rfl
  rw [ofFields, if_neg (Nat.succ_ne_zero room)]
  split
  next named hnamed =>
    cases hnames.symm.trans hnamed
    rfl
  next hnone => cases hnames.symm.trans hnone

theorem value?_object {fuel room : Nat} {cs t r : List Char} {fields : List (String × Json)}
    (hcs : skipBlank cs = '{' :: '"' :: t)
    (hfields : fields? fuel room ('"' :: t) = some (fields.map fun f => (some f.1, f.2), r)) :
    value? (fuel + 1) (room + 1) cs = some (object fields, r) := by
  have hquote : skipBlank ('"' :: t) = '"' :: t := skipBlank_cons rfl t
  have hread : value? (fuel + 1) (room + 1) cs = (fields? fuel room ('"' :: t)).map
      fun (fields, rest) => (ofFields (room + 1) fields, rest) := by
    simp only [value?, hcs, hquote]
    rfl
  rw [hread, hfields]
  simp only [Option.map_some, ofFields_map]

/-- A nonempty object has a quote after the brace. -/
theorem exists_fieldsText (field : String × Json) (fields : List (String × Json)) :
    ∃ t, fieldsText (field :: fields) = '"' :: t := by
  cases fields with
  | nil => exact ⟨_, fieldsText_singleton field⟩
  | cons next fields => exact ⟨_, fieldsText_cons_cons field next fields⟩

theorem reads_object {room : Nat} {fields : List (String × Json)}
    (h : ∀ f ∈ fields, Reads room f.2) : Reads (room + 1) (object fields) := by
  intro fuel rest hfuel _
  refine ⟨rest, ?_, rfl⟩
  rw [toList_render_object] at hfuel ⊢
  rw [List.length_cons, List.length_append, List.length_singleton] at hfuel
  rw [List.cons_append, List.append_assoc, List.singleton_append]
  cases fields with
  | nil =>
    rw [value?, skipBlank_cons rfl]
    rfl
  | cons field fields =>
    obtain ⟨k, rfl⟩ : ∃ k, fuel = k + 2 := ⟨fuel - 2, by omega⟩
    have hfields := fields?_fieldsText h k rest (by omega)
    obtain ⟨t, ht⟩ := exists_fieldsText field fields
    rw [ht, List.cons_append] at hfields ⊢
    exact value?_object (skipBlank_cons rfl _) hfields

/-! ## Values -/

theorem reads_string (room : Nat) (s : String) : Reads room (string s) := by
  intro fuel rest _ _
  refine ⟨rest, ?_, rfl⟩
  have hquote : ∀ cs, skipBlank ('"' :: cs) = '"' :: cs := skipBlank_cons rfl
  simp only [render, toList_quote, value?, hquote, text?_escape, Option.map_some, Option.elim_some]

/-- **A legible value is read in front of anything that ends it.** -/
theorem reads_of_legible {room : Nat} {j : Json} (h : Legible room j) : Reads room j := by
  induction h with
  | null room => exact fun fuel rest _ _ => ⟨rest, rfl, rfl⟩
  | bool room b =>
    intro fuel rest _ _
    cases b <;> exact ⟨rest, rfl, rfl⟩
  | integer room hi =>
    intro fuel rest _ hrest
    exact ⟨rest, value?_integer hi hrest fuel room, rfl⟩
  | float room hx => exact fun fuel rest _ hrest => value?_float hx hrest fuel room
  | string room s => exact reads_string room s
  | array _ ih => exact reads_array ih
  | object _ ih => exact reads_object ih

/-- **The text of a legible value reads back.** -/
theorem parse?_render {j : Json} (h : Legible 127 j) : parse? (render j) = some j := by
  obtain ⟨r, hvalue, hr⟩ := reads_of_legible h (2 * (render j).toList.length + 1) []
    (by omega) stops_nil
  rw [List.append_nil] at hvalue
  exact parseWithin?_eq_some_iff.2 ⟨r, hvalue, hr⟩

end Json

end ResultLint
