import ResultLint.Json.Reader
import ResultLint.Json.Writer

/-!
# Numbers and strings read back

A value is read up to whatever follows it.  After a number this must not be something that the number
could go on with; `Stops` says so of what follows.  What is left may start with other blanks than
what followed, which no reader can tell apart.

That the decimal of a number reads back as the number is asked of every number by itself, since
decimals are read with a rounding of their own: `Binary64.ReadsBack`.

* `number?_append`: a number is read without a look at what follows it.
* `text?_escape`: **a string reads back.**
* `value?_integer`, `value?_float`: so do integers of 64 bits and the numbers that read back alone.
-/

namespace ResultLint

namespace Json

/-! ## Blanks -/

theorem skipBlank_cons {c : Char} (h : isBlank c = false) (cs : List Char) :
    skipBlank (c :: cs) = c :: cs := by
  rw [skipBlank, List.dropWhile_cons, h]
  rfl

theorem skipBlank_append_of_eq_nil {cs : List Char} (h : skipBlank cs = []) (rest : List Char) :
    skipBlank (cs ++ rest) = skipBlank rest := by
  unfold skipBlank at *
  rw [List.dropWhile_append, h]
  rfl

theorem skipBlank_append_of_eq_cons {c : Char} {cs t : List Char} (h : skipBlank cs = c :: t)
    (rest : List Char) : skipBlank (cs ++ rest) = c :: (t ++ rest) := by
  unfold skipBlank at *
  rw [List.dropWhile_append, h]
  rfl

theorem skipBlank_skipBlank (cs : List Char) : skipBlank (skipBlank cs) = skipBlank cs := by
  induction cs with
  | nil => rfl
  | cons c cs ih =>
    cases h : isBlank c with
    | true =>
      have hskip : skipBlank (c :: cs) = skipBlank cs := by
        rw [skipBlank, List.dropWhile_cons, h]
        rfl
      rw [hskip, ih]
    | false => rw [skipBlank_cons h, skipBlank_cons h]

/-! ## Numbers -/

/-- No number goes on like this. -/
def Stops (cs : List Char) : Prop :=
  ∀ c, cs.head? = some c → c.isDigit = false ∧ c ≠ '.' ∧ c ≠ 'e' ∧ c ≠ 'E'

theorem stops_nil : Stops [] := fun _ h => by cases h

theorem stops_comma (cs : List Char) : Stops (',' :: cs) := by
  rintro c ⟨⟩
  decide

theorem stops_bracket (cs : List Char) : Stops (']' :: cs) := by
  rintro c ⟨⟩
  decide

theorem stops_brace (cs : List Char) : Stops ('}' :: cs) := by
  rintro c ⟨⟩
  decide

/-- A run of digits ends where it ended before. -/
theorem digitRun_append {rest : List Char} (h : Stops rest) (cs : List Char) :
    (cs ++ rest).takeWhile Char.isDigit = cs.takeWhile Char.isDigit ∧
      (cs ++ rest).dropWhile Char.isDigit = cs.dropWhile Char.isDigit ++ rest := by
  induction cs with
  | nil =>
    cases rest with
    | nil => exact ⟨rfl, rfl⟩
    | cons c rest =>
      have hc := (h c rfl).1
      simp [hc]
  | cons c cs ih =>
    rw [List.cons_append, List.takeWhile_cons, List.takeWhile_cons, List.dropWhile_cons,
      List.dropWhile_cons]
    cases c.isDigit with
    | true => exact ⟨congrArg (c :: ·) ih.1, ih.2⟩
    | false => exact ⟨rfl, rfl⟩

theorem digits?_append {cs rest : List Char} (h : Stops rest) {ds : List Nat} {r : List Char}
    (hcs : digits? cs = some (ds, r)) : digits? (cs ++ rest) = some (ds, r ++ rest) := by
  obtain ⟨htake, hdrop⟩ := digitRun_append h cs
  rw [digits?] at hcs ⊢
  rw [htake, hdrop]
  split at hcs
  · cases hcs
  · cases hcs
    rfl

theorem exists_digit_of_digits? {cs : List Char} {ds : List Nat} {r : List Char}
    (h : digits? cs = some (ds, r)) : ∃ d t, cs = d :: t ∧ d.isDigit = true := by
  cases cs with
  | nil => cases h
  | cons d t =>
    refine ⟨d, t, rfl, ?_⟩
    cases hd : d.isDigit with
    | true => rfl
    | false => simp [digits?, hd] at h

theorem fraction?_of_stops {rest : List Char} (h : Stops rest) :
    fraction? rest = some (none, rest) := by
  rw [fraction?]
  rintro t rfl
  exact (h '.' rfl).2.1 rfl

theorem fraction?_append {cs rest : List Char} (h : Stops rest) {f : Option (List Nat)}
    {r : List Char} (hcs : fraction? cs = some (f, r)) :
    fraction? (cs ++ rest) = some (f, r ++ rest) := by
  rw [fraction?.eq_def] at hcs
  split at hcs
  next t =>
    obtain ⟨⟨ds, r'⟩, hds, heq⟩ := Option.map_eq_some_iff.1 hcs
    cases heq
    rw [List.cons_append, fraction?, digits?_append h hds]
    rfl
  next hno =>
    cases hcs
    cases cs with
    | nil => exact fraction?_of_stops h
    | cons c cs =>
      rw [List.cons_append, fraction?]
      rintro t ⟨⟩
      exact hno cs rfl

theorem signedDigits?_append {cs rest : List Char} (h : Stops rest) {p : Int} {r : List Char}
    (hcs : signedDigits? cs = some (p, r)) : signedDigits? (cs ++ rest) = some (p, r ++ rest) := by
  rw [signedDigits?.eq_def] at hcs
  split at hcs
  next t =>
    obtain ⟨⟨ds, r'⟩, hds, heq⟩ := Option.map_eq_some_iff.1 hcs
    cases heq
    rw [List.cons_append, signedDigits?, digits?_append h hds]
    rfl
  next t =>
    obtain ⟨⟨ds, r'⟩, hds, heq⟩ := Option.map_eq_some_iff.1 hcs
    cases heq
    rw [List.cons_append, signedDigits?, digits?_append h hds]
    rfl
  next hminus hplus =>
    obtain ⟨⟨ds, r'⟩, hds, heq⟩ := Option.map_eq_some_iff.1 hcs
    cases heq
    obtain ⟨d, t, rfl, _⟩ := exists_digit_of_digits? hds
    rw [signedDigits?, digits?_append h hds]
    · rfl
    · rintro t' ⟨⟩
      exact hminus t rfl
    · rintro t' ⟨⟩
      exact hplus t rfl

theorem power?_of_stops {rest : List Char} (h : Stops rest) : power? rest = some (none, rest) := by
  rw [power?]
  · rintro t rfl
    exact (h 'e' rfl).2.2.1 rfl
  · rintro t rfl
    exact (h 'E' rfl).2.2.2 rfl

theorem power?_append {cs rest : List Char} (h : Stops rest) {p : Option Int} {r : List Char}
    (hcs : power? cs = some (p, r)) : power? (cs ++ rest) = some (p, r ++ rest) := by
  rw [power?.eq_def] at hcs
  split at hcs
  next t =>
    obtain ⟨⟨i, r'⟩, hi, heq⟩ := Option.map_eq_some_iff.1 hcs
    cases heq
    rw [List.cons_append, power?, signedDigits?_append h hi]
    rfl
  next t =>
    obtain ⟨⟨i, r'⟩, hi, heq⟩ := Option.map_eq_some_iff.1 hcs
    cases heq
    rw [List.cons_append, power?, signedDigits?_append h hi]
    rfl
  next hsmall hlarge =>
    cases hcs
    cases cs with
    | nil => exact power?_of_stops h
    | cons c cs =>
      rw [List.cons_append, power?]
      · rintro t ⟨⟩
        exact hsmall cs rfl
      · rintro t ⟨⟩
        exact hlarge cs rfl

/-- What it takes to read a number. -/
theorem number?_eq_some_iff {negative : Bool} {cs : List Char} {j : Json} {r : List Char} :
    number? negative cs = some (j, r) ↔ ∃ whole rest₁ fraction rest₂ power,
      digits? cs = some (whole, rest₁) ∧ ¬ (whole.head? = some 0 ∧ 1 < whole.length) ∧
      fraction? rest₁ = some (fraction, rest₂) ∧ power? rest₂ = some (power, r) ∧
      ofNumeral negative whole fraction power = j := by
  unfold number?
  constructor
  · intro h
    obtain ⟨⟨whole, rest₁⟩, hwhole, h⟩ := Option.bind_eq_some_iff.1 h
    by_cases hzero : whole.head? = some 0 ∧ 1 < whole.length
    · simp only [if_pos hzero] at h
      cases h
    · simp only [if_neg hzero] at h
      obtain ⟨⟨fraction, rest₂⟩, hfraction, h⟩ := Option.bind_eq_some_iff.1 h
      obtain ⟨⟨power, rest₃⟩, hpower, h⟩ := Option.bind_eq_some_iff.1 h
      cases h
      exact ⟨whole, rest₁, fraction, rest₂, power, hwhole, hzero, hfraction, hpower, rfl⟩
  · rintro ⟨whole, rest₁, fraction, rest₂, power, hwhole, hzero, hfraction, hpower, rfl⟩
    simp [hwhole, hzero, hfraction, hpower]

/-- **A number is read without a look at what follows it.** -/
theorem number?_append {negative : Bool} {cs rest : List Char} (h : Stops rest) {j : Json}
    {r : List Char} (hcs : number? negative cs = some (j, r)) :
    number? negative (cs ++ rest) = some (j, r ++ rest) := by
  obtain ⟨whole, rest₁, fraction, rest₂, power, hwhole, hzero, hfraction, hpower, hj⟩ :=
    number?_eq_some_iff.1 hcs
  exact number?_eq_some_iff.2 ⟨whole, _, fraction, _, power, digits?_append h hwhole, hzero,
    fraction?_append h hfraction, power?_append h hpower, hj⟩

/-! ### Integers -/

theorem head?_toDigits {n : Nat} (h : (Nat.toDigits 10 n).head? = some '0') : n = 0 := by
  induction n using Nat.strongRecOn with
  | ind n ih =>
    by_cases hn : n < 10
    · rw [Nat.toDigits_of_lt_base hn] at h
      simpa using h
    · have hbase : 10 ≤ n := Nat.le_of_not_lt hn
      rw [Nat.toDigits_of_base_le (by decide) hbase, List.head?_append,
        List.head?_eq_some_head Nat.toDigits_ne_nil, Option.some_or] at h
      have hquotient := ih (n / 10) (by omega)
        ((List.head?_eq_some_head Nat.toDigits_ne_nil).trans h)
      omega

theorem number_toDigits (n : Nat) :
    Digits.number 10 ((Nat.toDigits 10 n).map Digits.value) = n := by
  rw [Digits.number, List.foldl_map]
  exact Nat.ofDigitChars_ten_toDigits

/-- The digits of a number are a number, and nothing is in front of them. -/
theorem digits?_toDigits (n : Nat) {rest : List Char} (h : Stops rest) :
    digits? (Nat.toDigits 10 n ++ rest) =
      some ((Nat.toDigits 10 n).map Digits.value, rest) := by
  have hdigit : ∀ c ∈ Nat.toDigits 10 n, c.isDigit = true := fun c hc =>
    Nat.isDigit_of_mem_toDigits (by decide) (by decide) hc
  have hrest := digitRun_append h []
  rw [List.nil_append] at hrest
  have htake : (Nat.toDigits 10 n ++ rest).takeWhile Char.isDigit = Nat.toDigits 10 n := by
    rw [List.takeWhile_append_of_pos hdigit, hrest.1, List.takeWhile_nil, List.append_nil]
  have hdrop : (Nat.toDigits 10 n ++ rest).dropWhile Char.isDigit = rest := by
    rw [List.dropWhile_append_of_pos hdigit, hrest.2]
    rfl
  rw [digits?, htake, hdrop]
  split
  next heq => exact absurd heq Nat.toDigits_ne_nil
  next => rfl

theorem not_leadingZero (n : Nat) :
    ¬ (((Nat.toDigits 10 n).map Digits.value).head? = some 0 ∧
      1 < ((Nat.toDigits 10 n).map Digits.value).length) := by
  rintro ⟨hhead, hlength⟩
  rw [List.length_map] at hlength
  rw [List.head?_map, Option.map_eq_some_iff] at hhead
  obtain ⟨c, hc, hvalue⟩ := hhead
  have hdigit : c.isDigit = true :=
    Nat.isDigit_of_mem_toDigits (by decide) (by decide) (List.mem_of_head? hc)
  have hzero : c = '0' := by
    rw [Char.isDigit, Bool.and_eq_true, decide_eq_true_eq, decide_eq_true_eq] at hdigit
    have hle : c.toNat - 48 = 0 := hvalue
    have hge : 48 ≤ c.toNat := hdigit.1
    apply Char.toNat_inj.1
    change c.toNat = 48
    omega
  subst hzero
  rw [head?_toDigits hc, Nat.toDigits_zero] at hlength
  simp at hlength

theorem number?_toDigits (negative : Bool) (n : Nat) {rest : List Char} (h : Stops rest) :
    number? negative (Nat.toDigits 10 n ++ rest) =
      some (ofNumeral negative ((Nat.toDigits 10 n).map Digits.value) none none, rest) := by
  exact number?_eq_some_iff.2 ⟨_, rest, none, rest, none, digits?_toDigits n h,
    not_leadingZero n, fraction?_of_stops h, power?_of_stops h, rfl⟩

/-! ## Strings -/

theorem hexNumber?_hexDigit : ∀ n < 0x20,
    Digits.hexNumber? ['0', '0', hexDigit (n / 16), hexDigit (n % 16)] = some n := by
  decide

/-- A number below the surrogates is a character whatever follows it. -/
theorem chars?_unit {n : Nat} (h : n < 0xD800) (more : List Piece) :
    chars? (.unit n :: more) = (chars? more).map (Char.ofNat n :: ·) := by
  have hhigh : isHighSurrogate n = false := by
    simp only [isHighSurrogate, Bool.and_eq_false_iff, decide_eq_false_iff_not]
    omega
  have hlow : isLowSurrogate n = false := by
    simp only [isLowSurrogate, Bool.and_eq_false_iff, decide_eq_false_iff_not]
    omega
  cases more with
  | nil => simp [chars?, hhigh, hlow]
  | cons piece more => cases piece <;> simp [chars?, hhigh, hlow]

/-- A written character is read as one piece, which stands for it. -/
theorem pieces?_escape (c : Char) (done : List Piece) (rest : List Char) :
    ∃ piece, pieces? done (escape c ++ rest) = pieces? (piece :: done) rest ∧
      ∀ more, chars? (piece :: more) = (chars? more).map (c :: ·) := by
  unfold escape
  split
  case h_8 hquote hbackslash _ _ _ _ _ =>
    split
    next hcontrol =>
      refine ⟨.unit c.toNat, ?_, fun more => ?_⟩
      · simp [pieces?, hexNumber?_hexDigit _ hcontrol]
      · rw [chars?_unit (by omega), Char.ofNat_toNat]
    next hplain =>
      refine ⟨.char c, ?_, fun more => by rw [chars?]⟩
      rw [List.singleton_append, pieces?, if_neg hplain]
      · exact hquote
      · exact fun _ _ _ _ _ heq _ => hbackslash heq
      · exact fun _ _ heq _ => hbackslash heq
  all_goals exact ⟨.char _, rfl, fun more => by rw [chars?]⟩

/-- A written string is read as pieces that stand for its characters. -/
theorem pieces?_flatMap_escape (s : List Char) (done : List Piece) (rest : List Char) :
    ∃ pieces, pieces? done (s.flatMap escape ++ '"' :: rest) =
      some (done.reverse ++ pieces, rest) ∧ chars? pieces = some s := by
  induction s generalizing done with
  | nil => exact ⟨[], by simp [pieces?], rfl⟩
  | cons c s ih =>
    obtain ⟨piece, hpiece, hchar⟩ := pieces?_escape c done (s.flatMap escape ++ '"' :: rest)
    obtain ⟨pieces, hpieces, hchars⟩ := ih (piece :: done)
    refine ⟨piece :: pieces, ?_, ?_⟩
    · rw [List.flatMap_cons, List.append_assoc, hpiece, hpieces, List.reverse_cons,
        List.append_assoc, List.singleton_append]
    · rw [hchar, hchars, Option.map_some]

/-- **A string reads back.** -/
theorem text?_escape (s : String) (rest : List Char) :
    text? (s.toList.flatMap escape ++ '"' :: rest) = some (some s, rest) := by
  obtain ⟨pieces, hpieces, hchars⟩ := pieces?_flatMap_escape s.toList [] rest
  rw [text?, hpieces, Option.map_some]
  simp [hchars]

/-! ## The first character -/

/-- A value with a digit in front is a number. -/
theorem value?_of_digit {cs : List Char} {d : Char} {t : List Char} (h : skipBlank cs = d :: t)
    (hd : d.isDigit = true) (fuel room : Nat) :
    value? (fuel + 1) room cs = number? false (d :: t) := by
  rw [value?, h]
  split
  case h_8 => rfl
  all_goals
    next heq =>
      cases heq
      exact absurd hd (by decide)

theorem value?_of_minus {cs t : List Char} (h : skipBlank cs = '-' :: t) (fuel room : Nat) :
    value? (fuel + 1) room cs = number? true t := by
  rw [value?, h]
  rfl

theorem value?_skipBlank (fuel room : Nat) (cs : List Char) :
    value? fuel room (skipBlank cs) = value? fuel room cs := by
  cases fuel with
  | zero => rw [value?, value?]
  | succ fuel => rw [value?, value?, skipBlank_skipBlank]

/-! ## Integers and floats -/

theorem isBlank_of_isDigit {c : Char} (h : c.isDigit = true) : isBlank c = false := by
  cases hc : isBlank c with
  | false => rfl
  | true =>
    simp only [isBlank, Bool.or_eq_true, beq_iff_eq] at hc
    rcases hc with ((rfl | rfl) | rfl) | rfl <;> exact absurd h (by decide)

/-- The integers that are read as integers: those of 64 bits, with a sign or without one. -/
def Has64Bits (i : Int) : Prop := -(Nat.pow 2 63 : Nat) ≤ i ∧ i < (Nat.pow 2 64 : Nat)

theorem value?_integer {i : Int} (hi : Has64Bits i) {rest : List Char} (h : Stops rest)
    (fuel room : Nat) :
    value? (fuel + 1) room ((integerText i).toList ++ rest) = some (integer i, rest) := by
  obtain ⟨hlow, hhigh⟩ := hi
  rw [integerText]
  split
  next hneg =>
    have htext : ("-" ++ Nat.repr i.natAbs).toList ++ rest =
        '-' :: (Nat.toDigits 10 i.natAbs ++ rest) := by
      rw [String.toList_append, Nat.toList_repr]
      rfl
    have hi : -(i.natAbs : Int) = i := by omega
    rw [htext, value?_of_minus (skipBlank_cons rfl _), number?_toDigits true _ h, ofNumeral,
      number_toDigits]
    have hfits : 0 < i.natAbs ∧ i.natAbs ≤ Nat.pow 2 63 := by omega
    simp only [Option.isSome_none, Bool.or_self, Bool.false_eq_true, if_false, if_true,
      if_pos hfits, hi]
  next hpos =>
    have hi : (i.natAbs : Int) = i := by omega
    obtain ⟨d, t, hdt, hd⟩ := exists_digit_of_digits? (digits?_toDigits i.natAbs h)
    rw [Nat.toList_repr]
    have hskip : skipBlank (Nat.toDigits 10 i.natAbs ++ rest) = d :: t := by
      rw [hdt, skipBlank_cons (isBlank_of_isDigit hd)]
    rw [value?_of_digit hskip hd, ← hdt, number?_toDigits false _ h, ofNumeral, number_toDigits]
    have hfits : i.natAbs < Nat.pow 2 64 := by omega
    simp only [Option.isSome_none, Bool.or_self, Bool.false_eq_true, if_false, if_pos hfits, hi]

def float? : Json → Option Binary64
  | float x => some x
  | _ => none

theorem float?_eq_some_iff {json : Json} {x : Binary64} :
    json.float? = some x ↔ json = float x := by
  cases json <;> simp [float?]

end Json

/-- The text of a number in a document reads back as the number. -/
def Binary64.ReadsBack (x : Binary64) : Prop :=
  Json.parse? (Json.render (.float x)) = some (.float x)

theorem Binary64.readsBack_iff {x : Binary64} :
    x.ReadsBack ↔ (Json.parse? (Json.render (.float x))).bind Json.float? = some x := by
  simp [ReadsBack, Option.bind_eq_some_iff, Json.float?_eq_some_iff]

instance (x : Binary64) : Decidable x.ReadsBack := decidable_of_iff _ Binary64.readsBack_iff.symm

-- not every finite number does: `1e-23` is read as the number below it
example : ∃ x : Binary64, x.isFinite = true ∧ ¬ x.ReadsBack :=
  ⟨.ofRatio 1 (10 ^ 23), by decide +kernel, by decide +kernel⟩

namespace Json

theorem parseWithin?_eq_some_iff {room : Nat} {text : String} {j : Json} :
    parseWithin? room text = some j ↔ ∃ r,
      value? (2 * text.toList.length + 2) room text.toList = some (j, r) ∧ skipBlank r = [] := by
  rw [parseWithin?]
  split
  next value r hvalue =>
    rw [hvalue]
    split
    next hr =>
      constructor
      · rintro ⟨⟩
        exact ⟨r, rfl, hr⟩
      · rintro ⟨r', ⟨⟩, _⟩
        rfl
    next hr =>
      constructor
      · rintro ⟨⟩
      · rintro ⟨r', ⟨⟩, hr'⟩
        exact absurd hr' hr
  next hvalue =>
    rw [hvalue]
    constructor
    · rintro ⟨⟩
    · rintro ⟨r, ⟨⟩, _⟩

theorem ofItems_ne_float (room : Nat) (items : List Json) (x : Binary64) :
    ofItems room items ≠ float x := by
  rw [ofItems]
  split <;> exact Json.noConfusion

theorem ofFields_ne_float (room : Nat) (fields : List (Option String × Json)) (x : Binary64) :
    ofFields room fields ≠ float x := by
  rw [ofFields]
  split
  · exact Json.noConfusion
  · split <;> exact Json.noConfusion

/-- Only a number reads as a float. -/
theorem number?_of_value?_float {fuel room : Nat} {cs r : List Char} {x : Binary64}
    (h : value? (fuel + 1) room cs = some (float x, r)) :
    (∃ t, skipBlank cs = '-' :: t ∧ number? true t = some (float x, r)) ∨
      number? false (skipBlank cs) = some (float x, r) := by
  rw [value?] at h
  split at h
  next => cases h
  next => cases h
  next => cases h
  next =>
    obtain ⟨⟨s, r'⟩, _, heq⟩ := Option.map_eq_some_iff.1 h
    cases s <;> cases heq
  next t hcs => exact Or.inl ⟨t, hcs, h⟩
  next =>
    split at h
    · exact absurd (congrArg Prod.fst (Option.some.inj h)) (ofItems_ne_float _ _ x)
    · obtain ⟨read, _, heq⟩ := Option.map_eq_some_iff.1 h
      exact absurd (congrArg Prod.fst heq) (ofItems_ne_float _ _ x)
  next =>
    split at h
    · exact absurd (congrArg Prod.fst (Option.some.inj h)) (ofFields_ne_float room [] x)
    · obtain ⟨read, _, heq⟩ := Option.map_eq_some_iff.1 h
      exact absurd (congrArg Prod.fst heq) (ofFields_ne_float _ _ x)
  next => exact Or.inr h

/-- A number that reads back by itself does so in front of other text. -/
theorem value?_float {x : Binary64} (hx : x.ReadsBack) {rest : List Char} (h : Stops rest)
    (fuel room : Nat) :
    ∃ r, value? (fuel + 1) room ((render (.float x)).toList ++ rest) = some (float x, r) ∧
      skipBlank r = skipBlank rest := by
  obtain ⟨r, hvalue, hr⟩ := parseWithin?_eq_some_iff.1 hx
  refine ⟨r ++ rest, ?_, skipBlank_append_of_eq_nil hr rest⟩
  rcases number?_of_value?_float hvalue with ⟨t, hcs, hnumber⟩ | hnumber
  · rw [value?_of_minus (skipBlank_append_of_eq_cons hcs rest), number?_append h hnumber]
  · obtain ⟨whole, rest₁, _, _, _, hwhole, _⟩ := number?_eq_some_iff.1 hnumber
    obtain ⟨d, t, hdt, hd⟩ := exists_digit_of_digits? hwhole
    rw [hdt] at hnumber
    rw [value?_of_digit (skipBlank_append_of_eq_cons hdt rest) hd, ← List.cons_append,
      number?_append h hnumber]

end Json

end ResultLint
