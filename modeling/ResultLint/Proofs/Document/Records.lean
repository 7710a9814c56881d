import ResultLint.Document.Names
import ResultLint.Proofs.Json.Legible

/-!
# Records that read back

`Json.Stores` says that a value can be written and read back, and what it stands for.  A record is
read part by part, in the order in which its parts are written, and a part may be left out:
`Record.Parts` says what its parts stand for together.  Both come with their combinators, so that
what is written for a structure is shown to stand for it along the parts of the structure.

* `Record.Parts.append`: parts are read one after another.
* `Json.stores_written`: **an object stands for what its parts stand for**, if no name is given
  twice.
-/

namespace ResultLint

namespace Json

variable {α : Type} {room : Nat}

/-- The value can be written and read back, and it stands for `a`. -/
structure Stores (room : Nat) (f : Json → Option α) (json : Json) (a : α) : Prop where
  legible : json.Legible room
  read : f json = some a

theorem stores_text (room : Nat) (s : String) : Stores room text (.string s) s :=
  ⟨.string room s, rfl⟩

theorem stores_flag (room : Nat) (b : Bool) : Stores room flag (.bool b) b :=
  ⟨.bool room b, rfl⟩

/-- A name that is chosen from a list. -/
theorem stores_name (room : Nat) {f : Json → Option α} {s : String} {a : α}
    (h : f (.string s) = some a) : Stores room f (.string s) a :=
  ⟨.string room s, h⟩

theorem Stores.map {β : Type} {f : Json → Option α} {json : Json} {a : α}
    (h : json.Stores room f a) (g : α → β) : json.Stores room (fun json => g <$> f json) (g a) := by
  refine ⟨h.legible, ?_⟩
  rw [h.read]
  rfl

theorem stores_natural (room : Nat) {n bound : Nat} (h : n < bound)
    (hbound : bound ≤ Nat.pow 2 64) : Stores room (natural bound) (.ofNat n) n := by
  constructor
  · exact .integer room ⟨by omega, by omega⟩
  · have hn : 0 ≤ (n : Int) ∧ (n : Int) < bound := by omega
    rw [ofNat, natural, if_pos hn, Int.toNat_natCast]

theorem stores_list {f : Json → Option α} {g : α → Json} {as : List α}
    (h : ∀ a ∈ as, Stores room f (g a) a) : Stores (room + 1) (list f) (.ofList g as) as := by
  constructor
  · refine .array fun item hitem => ?_
    obtain ⟨a, ha, rfl⟩ := List.mem_map.1 hitem
    exact (h a ha).legible
  · rw [ofList, list, mapM_eq_some_iff, List.map_map]
    exact List.map_congr_left fun a ha => (h a ha).read

theorem stores_nullable {f : Json → Option α} {g : α → Json} (hnull : f .null = none)
    {o : Option α} (h : ∀ a ∈ o, Stores room f (g a) a) :
    Stores room (nullable f) (.ofOption g o) o := by
  cases o with
  | none => exact ⟨.null room, rfl⟩
  | some a =>
    obtain ⟨hlegible, hread⟩ := h a rfl
    refine ⟨hlegible, ?_⟩
    rw [ofOption]
    unfold nullable
    split
    next heq =>
      rw [heq, hnull] at hread
      cases hread
    next => rw [hread, Option.map_some]

theorem soundItems_iff {items : List Json} :
    soundItems items = true ↔ ∀ item ∈ items, item.sound = true := by
  induction items with
  | nil => simp [soundItems]
  | cons item items ih => simp [soundItems, ih]

theorem soundFields_iff {fields : List (String × Json)} :
    soundFields fields = true ↔ ∀ field ∈ fields, field.2.sound = true := by
  induction fields with
  | nil => simp [soundFields]
  | cons field fields ih => simp [soundFields, ih]

theorem Legible.sound {json : Json} (h : json.Legible room) : json.sound = true := by
  induction h with
  | array _ ih => exact soundItems_iff.2 ih
  | object _ ih => exact soundFields_iff.2 ih
  | _ => rfl

end Json

/-! ## Numbers of nodes and types -/

theorem NodeId.stores {id : NodeId} (room : Nat) (h : id.index < Nat.pow 2 32) :
    Json.Stores room NodeId.ofJson? id.toJson id :=
  (Json.stores_natural room h (by decide)).map NodeId.mk

theorem TypeId.stores {id : TypeId} (room : Nat) (h : id.index < Nat.pow 2 32) :
    Json.Stores room TypeId.ofJson? id.toJson id :=
  (Json.stores_natural room h (by decide)).map TypeId.mk

/-! ## Parts -/

namespace Record

variable {α β : Type} {room : Nat} {x : Record → Option α} {g : α → Record → Option β} {a : α}
  {b : β} {name : String}

/-- The record has these parts, each once, and not those that are left out. -/
def Gives (r : Record) : List (String × Option Json) → Prop
  | [] => True
  | (name, json) :: rest => r name = json.toList ∧ r.Gives rest

theorem gives_append {r : Record} {parts rest : List (String × Option Json)} :
    r.Gives (parts ++ rest) ↔ r.Gives parts ∧ r.Gives rest := by
  induction parts with
  | nil => simp [Gives]
  | cons part parts ih => simp [Gives, ih, and_assoc]

/-- The parts can be written, and any record that has them is read as `a`. -/
structure Parts (room : Nat) (x : Record → Option α) (parts : List (String × Option Json))
    (a : α) : Prop where
  legible : ∀ part ∈ parts, ∀ json ∈ part.2, json.Legible room
  read : ∀ r : Record, r.Gives parts → x r = some a

namespace Parts

theorem nil (a : α) : Parts room (fun _ => some a) [] a :=
  ⟨fun _ h => absurd h List.not_mem_nil, fun _ _ => rfl⟩

/-- **Parts are read one after another.** -/
theorem append {parts rest : List (String × Option Json)} (hx : Parts room x parts a)
    (hg : Parts room (g a) rest b) :
    Parts room (fun r => x r >>= fun a => g a r) (parts ++ rest) b := by
  constructor
  · intro part hpart
    rcases List.mem_append.1 hpart with h | h
    · exact hx.legible part h
    · exact hg.legible part h
  · intro r hr
    obtain ⟨hparts, hrest⟩ := gives_append.1 hr
    rw [hx.read r hparts]
    exact hg.read r hrest

theorem cons {json : Option Json} {rest : List (String × Option Json)}
    (hx : Parts room x [(name, json)] a) (hg : Parts room (g a) rest b) :
    Parts room (fun r => x r >>= fun a => g a r) ((name, json) :: rest) b :=
  hx.append hg

theorem map {parts : List (String × Option Json)} (h : Parts room x parts a) (f : α → β) :
    Parts room (fun r => f <$> x r) parts (f a) := by
  refine ⟨h.legible, fun r hr => ?_⟩
  rw [h.read r hr]
  rfl

/-- A part that is given. -/
theorem given {json : Json} (hlegible : json.Legible room)
    (hread : ∀ r : Record, r name = [json] → x r = some a) : Parts room x [(name, some json)] a := by
  constructor
  · intro part hpart j hj
    rw [List.mem_singleton.1 hpart] at hj
    cases hj
    exact hlegible
  · exact fun r hr => hread r hr.1

theorem omitted (hread : ∀ r : Record, r name = [] → x r = some a) :
    Parts room x [(name, none)] a := by
  constructor
  · intro part hpart j hj
    rw [List.mem_singleton.1 hpart] at hj
    cases hj
  · exact fun r hr => hread r hr.1

variable {f : Json → Option α} {json : Json}

theorem required (name : String) (h : json.Stores room f a) :
    Parts room (·.required name f) [(name, some json)] a := by
  refine given h.legible fun r hr => ?_
  rw [Record.required, hr]
  exact h.read

theorem defaulted (name : String) (default : α) (h : json.Stores room f a) :
    Parts room (·.defaulted name f default) [(name, some json)] a := by
  refine given h.legible fun r hr => ?_
  rw [Record.defaulted, hr]
  exact h.read

/-- A part that may be `null`. -/
theorem optional (name : String) {o : Option α} (h : json.Stores room (Json.nullable f) o) :
    Parts room (·.optional name f) [(name, some json)] o := by
  refine given h.legible fun r hr => ?_
  rw [Record.optional, hr]
  exact h.read

/-- A part that is left out where there is nothing. -/
theorem optionalField (name : String) {w : α → Json} (hnull : f .null = none) {o : Option α}
    (h : ∀ a ∈ o, (w a).Stores room f a) :
    Parts room (·.optional name f) [(name, o.map w)] o := by
  cases o with
  | none => exact omitted fun r hr => by rw [Record.optional, hr]
  | some a => exact optional name (Json.stores_nullable hnull h)

/-- A list that is left out where it is empty. -/
theorem listField (name : String) {w : α → Json} {as : List α}
    (h : ∀ a ∈ as, (w a).Stores room f a) :
    Parts (room + 1) (·.defaulted name (Json.list f) [])
      [(name, if as.isEmpty then none else some (.ofList w as))] as := by
  cases as with
  | nil => exact omitted fun r hr => by rw [Record.defaulted, hr]
  | cons a as => exact defaulted name [] (Json.stores_list h)

end Parts

end Record

/-! ## Objects -/

namespace Json

variable {α : Type} {room : Nat} {x : Record → Option α} {a : α}

/-- The fields that are written for the parts. -/
def written (parts : List (String × Option Json)) : List (String × Json) :=
  parts.flatMap fun part => (part.2.map fun json => (part.1, json)).toList

theorem values_append (fields rest : List (String × Json)) (name : String) :
    values (fields ++ rest) name = values fields name ++ values rest name := by
  simp [values]

theorem values_written_of_not_mem {parts : List (String × Option Json)} {name : String}
    (h : name ∉ parts.map (·.1)) : values (written parts) name = [] := by
  induction parts with
  | nil => rfl
  | cons part parts ih =>
    rw [List.map_cons, List.mem_cons, not_or] at h
    have hne : part.1 ≠ name := fun heq => h.1 heq.symm
    rw [written, List.flatMap_cons, values_append]
    refine List.append_eq_nil_iff.2 ⟨?_, ih h.2⟩
    cases hjson : part.2 <;> simp [values, hne]

/-- The written object has exactly the parts. -/
theorem gives_values_written {parts : List (String × Option Json)}
    (h : (parts.map (·.1)).Nodup) : (values (written parts)).Gives parts := by
  -- the parts in front only add values under their own names
  have hall : ∀ front : List (String × Json), (∀ part ∈ parts, values front part.1 = []) →
      (values (front ++ written parts)).Gives parts := by
    induction parts with
    | nil => exact fun _ _ => trivial
    | cons part parts ih =>
      intro front hfront
      rw [List.map_cons, List.nodup_cons] at h
      have hself : values ((part.2.map fun json => (part.1, json)).toList) part.1 =
          part.2.toList := by
        cases hjson : part.2 <;> simp [values]
      refine ⟨?_, ?_⟩
      · rw [values_append, hfront part List.mem_cons_self, written, List.flatMap_cons,
          values_append, hself]
        have hrest := values_written_of_not_mem h.1
        rw [written] at hrest
        rw [hrest, List.append_nil, List.nil_append]
      · rw [written, List.flatMap_cons, ← List.append_assoc]
        refine ih h.2 _ fun p hp => ?_
        have hne : part.1 ≠ p.1 := fun heq => h.1 (heq ▸ List.mem_map_of_mem hp)
        rw [values_append, hfront p (List.mem_cons_of_mem part hp)]
        cases hjson : part.2 <;> simp [values, hne]
  exact hall [] fun _ _ => rfl

theorem legible_written {parts : List (String × Option Json)}
    (h : ∀ part ∈ parts, ∀ json ∈ part.2, json.Legible room) :
    ∀ field ∈ written parts, field.2.Legible room := by
  intro field hfield
  obtain ⟨part, hpart, hfield⟩ := List.mem_flatMap.1 hfield
  obtain ⟨json, hjson, rfl⟩ := Option.map_eq_some_iff.1 (Option.mem_toList.1 hfield)
  exact h part hpart json hjson

/-- **An object stands for what its parts stand for.** -/
theorem stores_written {parts : List (String × Option Json)} (names : List String)
    (h : Record.Parts room x parts a) (hnodup : (parts.map (·.1)).Nodup) :
    Stores (room + 1) (fun json => json.record names >>= x) (.object (written parts)) a :=
  ⟨.object (legible_written h.legible), h.read _ (gives_values_written hnodup)⟩

/-- All fields as parts that are given. -/
def present (fields : List (String × Json)) : List (String × Option Json) :=
  fields.map fun field => (field.1, some field.2)

theorem written_present (fields : List (String × Json)) : written (present fields) = fields := by
  simp [written, present, List.flatMap_map]

theorem names_present (fields : List (String × Json)) :
    (present fields).map (·.1) = fields.map (·.1) := by
  simp [present]

theorem stores_object {fields : List (String × Json)} (names : List String)
    (h : Record.Parts room x (present fields) a) (hnodup : (fields.map (·.1)).Nodup) :
    Stores (room + 1) (fun json => json.record names >>= x) (.object fields) a := by
  rw [← names_present] at hnodup
  have hstores := stores_written names h hnodup
  rwa [written_present] at hstores

/-- A record of one field. -/
theorem stores_single {β : Type} (name : String) {f : Json → Option α} {json : Json}
    (h : json.Stores room f a) (g : α → β) :
    Stores (room + 1) (fun body => body.record [name] >>= fun r => g <$> r.required name f)
      (.object [(name, json)]) (g a) :=
  stores_object [name] ((Record.Parts.required name h).map g) (by simp)

end Json

end ResultLint
