import ResultLint.Document.Tree
import ResultLint.Proofs.Json.Legible

/-!
# Numbers in documents are finite

A number beyond the finite ones is unusable, and an integer that does not fit 64 bits is read as a
float.  So every float and every integer in what was read stands for a finite number.

* `Json.bounded_of_parse?`: **what is read has finite numbers.**
* `Binary64.isFinite_ofInt`: the number nearest to an integer of 64 bits is finite.
-/

namespace ResultLint

namespace Json

/-- The numbers in the value are finite, and the integers have 64 bits. -/
inductive Bounded : Json → Prop
  | null : Bounded null
  | bool (b : Bool) : Bounded (bool b)
  | integer {i : Int} (hi : Has64Bits i) : Bounded (integer i)
  | float {x : Binary64} (hx : x.isFinite = true) : Bounded (float x)
  | string (s : String) : Bounded (string s)
  | array {items : List Json} (h : ∀ item ∈ items, Bounded item) : Bounded (array items)
  | object {fields : List (String × Json)} (h : ∀ field ∈ fields, Bounded field.2) :
      Bounded (object fields)
  | unusable : Bounded unusable

theorem bounded_ofFloat (negative : Bool) (x : Binary64) : Bounded (ofFloat negative x) := by
  rw [ofFloat]
  split
  next hx =>
    cases negative with
    | false => exact .float hx
    | true => exact .float hx
  next => exact .unusable

theorem bounded_ofNumeral (negative : Bool) (whole : List Nat) (fraction : Option (List Nat))
    (power : Option Int) : Bounded (ofNumeral negative whole fraction power) := by
  have hpow : Nat.pow 2 63 < Nat.pow 2 64 := by decide
  rw [ofNumeral]
  split
  · exact bounded_ofFloat _ _
  · split
    · split
      · exact .integer ⟨by omega, by omega⟩
      · exact bounded_ofFloat _ _
    · split
      · exact .integer ⟨by omega, by omega⟩
      · exact bounded_ofFloat _ _

theorem bounded_of_number? {negative : Bool} {cs r : List Char} {j : Json}
    (h : number? negative cs = some (j, r)) : Bounded j := by
  obtain ⟨whole, _, fraction, _, power, _, _, _, _, rfl⟩ := number?_eq_some_iff.1 h
  exact bounded_ofNumeral negative whole fraction power

theorem bounded_ofItems (room : Nat) {items : List Json} (h : ∀ item ∈ items, Bounded item) :
    Bounded (ofItems room items) := by
  rw [ofItems]
  split
  · exact .unusable
  · exact .array h

theorem bounded_ofFields (room : Nat) {fields : List (Option String × Json)}
    (h : ∀ field ∈ fields, Bounded field.2) : Bounded (ofFields room fields) := by
  rw [ofFields]
  split
  · exact .unusable
  · split
    next named hnamed =>
      refine .object fun field hfield => ?_
      obtain ⟨⟨name, value⟩, hmem, hread⟩ := exists_of_mem_mapM hnamed hfield
      obtain ⟨_, _, rfl⟩ := Option.map_eq_some_iff.1 hread
      exact h _ hmem
    next => exact .unusable

/-- **What is read has finite numbers**, whichever of the three readers is asked. -/
theorem bounded_of_read (fuel : Nat) :
    (∀ {room cs j r}, value? fuel room cs = some (j, r) → Bounded j) ∧
    (∀ {room cs items r}, items? fuel room cs = some (items, r) → ∀ item ∈ items, Bounded item) ∧
    (∀ {room cs fields r}, fields? fuel room cs = some (fields, r) →
      ∀ field ∈ fields, Bounded field.2) := by
  induction fuel with
  | zero =>
    refine ⟨fun h => ?_, fun h => ?_, fun h => ?_⟩
    · rw [value?] at h
      cases h
    · rw [items?] at h
      cases h
    · rw [fields?] at h
      cases h
  | succ fuel ih =>
    obtain ⟨ihvalue, ihitems, ihfields⟩ := ih
    refine ⟨fun h => ?_, fun h => ?_, fun h => ?_⟩
    · rw [value?] at h
      split at h
      · cases h
        exact .null
      · cases h
        exact .bool true
      · cases h
        exact .bool false
      · obtain ⟨⟨s, r'⟩, _, heq⟩ := Option.map_eq_some_iff.1 h
        cases s with
        | none =>
          cases heq
          exact .unusable
        | some s =>
          cases heq
          exact .string s
      · exact bounded_of_number? h
      · split at h
        · cases h
          exact bounded_ofItems _ (by simp)
        · obtain ⟨⟨items, r'⟩, hitems, heq⟩ := Option.map_eq_some_iff.1 h
          cases heq
          exact bounded_ofItems _ (ihitems hitems)
      · split at h
        · cases h
          exact bounded_ofFields _ (by simp)
        · obtain ⟨⟨fields, r'⟩, hfields, heq⟩ := Option.map_eq_some_iff.1 h
          cases heq
          exact bounded_ofFields _ (ihfields hfields)
      · exact bounded_of_number? h
    · rw [items?] at h
      split at h
      · cases h
      next item rest hitem =>
        have hbounded := ihvalue hitem
        split at h
        · obtain ⟨⟨items, r'⟩, hitems, heq⟩ := Option.map_eq_some_iff.1 h
          cases heq
          exact List.forall_mem_cons.2 ⟨hbounded, ihitems hitems⟩
        · cases h
          simpa using hbounded
        · cases h
    · rw [fields?] at h
      split at h
      · split at h
        · cases h
        · split at h
          · split at h
            · cases h
            next value rest hvalue =>
              have hbounded := ihvalue hvalue
              split at h
              · obtain ⟨⟨fields, r'⟩, hfields, heq⟩ := Option.map_eq_some_iff.1 h
                cases heq
                exact List.forall_mem_cons.2 ⟨hbounded, ihfields hfields⟩
              · cases h
                simpa using hbounded
              · cases h
          · cases h
      · cases h

theorem bounded_of_parse? {text : String} {j : Json} (h : parse? text = some j) : Bounded j := by
  obtain ⟨r, hvalue, _⟩ := parseWithin?_eq_some_iff.1 h
  exact (bounded_of_read _).1 hvalue

end Json

namespace Binary64

theorem isFinite_pack {m : Nat} {s : Int}
    (h : (s + 1074).toNat * hiddenBit + m < 2047 * hiddenBit) : (pack m s).isFinite = true := by
  have hbits : ((s + 1074).toNat * hiddenBit + m) / hiddenBit < 2047 := by
    rw [Nat.div_lt_iff_lt_mul (by decide)]
    exact h
  rw [pack, dif_pos hbits, isFinite, bne_iff_ne]
  exact Nat.ne_of_lt hbits

theorem roundDiv_le (num den : Nat) : roundDiv num den ≤ num / den + 1 := by
  rw [roundDiv]
  split <;> omega

/-- The scale of an integer leaves it about 53 bits. -/
theorem scaleOfRatio_one_bounds (n : Nat) :
    (n.log2 : Int) - 53 ≤ scaleOfRatio n 1 ∧ scaleOfRatio n 1 ≤ n.log2 - 52 := by
  have hone : Nat.log2 1 = 0 := by decide
  rw [scaleOfRatio, hone]
  split <;> omega

theorem scaled_lt {n : Nat} {s : Int} (h : (n.log2 : Int) - 53 ≤ s) :
    n * Nat.pow 2 (-s).toNat / (1 * Nat.pow 2 s.toNat) < Nat.pow 2 54 := by
  have hn : n < 2 ^ (n.log2 + 1) := Nat.lt_log2_self
  change n * 2 ^ (-s).toNat / (1 * 2 ^ s.toNat) < 2 ^ 54
  rw [Nat.one_mul, Nat.div_lt_iff_lt_mul (Nat.two_pow_pos _)]
  calc n * 2 ^ (-s).toNat < 2 ^ (n.log2 + 1) * 2 ^ (-s).toNat :=
        Nat.mul_lt_mul_of_pos_right hn (Nat.two_pow_pos _)
    _ = 2 ^ (n.log2 + 1 + (-s).toNat) := (Nat.pow_add 2 _ _).symm
    _ ≤ 2 ^ (54 + s.toNat) := Nat.pow_le_pow_right (by decide) (by omega)
    _ = 2 ^ 54 * 2 ^ s.toNat := Nat.pow_add 2 _ _

/-- A number of 64 bits is far from the largest one. -/
theorem isFinite_ofNat {n : Nat} (h : n ≤ Nat.pow 2 64) : (ofNat n).isFinite = true := by
  rw [ofNat, ofRatio]
  split
  · rfl
  next hn =>
    have hlog : n.log2 ≤ 64 := by
      have hlt : n < 2 ^ 65 := Nat.lt_of_le_of_lt h (by decide)
      have := (Nat.log2_lt hn).2 hlt
      omega
    obtain ⟨hlow, hhigh⟩ := scaleOfRatio_one_bounds n
    have hround := roundDiv_le (n * Nat.pow 2 (-scaleOfRatio n 1).toNat)
      (1 * Nat.pow 2 (scaleOfRatio n 1).toNat)
    have hscaled := scaled_lt hlow
    have hpow : Nat.pow 2 54 = 18014398509481984 := rfl
    apply isFinite_pack
    rw [show hiddenBit = 4503599627370496 from rfl]
    omega

theorem isFinite_ofInt {i : Int} (hi : Json.Has64Bits i) : (ofInt i).isFinite = true := by
  obtain ⟨hlow, hhigh⟩ := hi
  have hpow : Nat.pow 2 63 < Nat.pow 2 64 := by decide
  rw [ofInt]
  split
  · exact isFinite_ofNat (by omega)
  · exact isFinite_ofNat (by omega)

theorem isFinite_of_ofJson? {j : Json} (h : j.Bounded) {x : Binary64} (hx : ofJson? j = some x) :
    x.isFinite = true := by
  cases h with
  | integer hi =>
    cases hx
    exact isFinite_ofInt hi
  | float hfinite =>
    cases hx
    exact hfinite
  | _ => cases hx

end Binary64

end ResultLint
