import ResultLint.Proofs.Document.Widths

/-!
# Programs read back

A program that was read, or a valid one whose numbers have the width of numbers in a document, is
read again from what is written for it.  Nothing is assumed of its number literals but that the text
of each reads back as the number; a number that is not finite has no text.

* `Program.load_render`: a valid program that can be written is loaded again.
* `Program.fits_of_parse?`, `Program.isFinite_of_parse?`: what was read can be written.
* `Program.render_reads_back`: **so reading, writing and reading again gives the program.**
-/

namespace ResultLint

open Json (Stores)

namespace Program

variable {p : Program}

@[inherit_doc Signature.Fits, mk_iff]
structure Fits (p : Program) : Prop where
  types : ∀ ty ∈ p.types.entries, ty.Fits
  tree : p.tree.Fits

instance (p : Program) : Decidable p.Fits := decidable_of_iff _ (fits_iff p).symm

theorem stores (room : Nat) (h : p.Fits) (hnumber : ∀ x, p.tree.HasNumber x → x.ReadsBack) :
    Stores (room + 7) Program.ofJson? p.toJson p :=
  Json.stores_object ["types", "tree"]
    (.cons (.required "types" (TypeTable.stores room h.types))
      (.cons (.required "tree" (Tree.stores (room + 2) h.tree hnumber)) (.nil p))) (by simp)

theorem parse?_render (h : p.Fits) (hnumber : ∀ x, p.tree.HasNumber x → x.ReadsBack) :
    parse? p.render = some p := by
  obtain ⟨hlegible, hread⟩ := stores 120 h hnumber
  rw [parse?, render, Json.parse?_render hlegible]
  exact hread

theorem load_eq_ok_iff {text : String} :
    load text = .ok p ↔ parse? text = some p ∧ p.validate = .ok () := by
  rw [load]
  cases hread : parse? text with
  | none => simp [accept]
  | some q =>
    rw [accept]
    cases hq : q.validate with
    | ok u =>
      constructor
      · rintro ⟨⟩
        exact ⟨rfl, hq⟩
      · rintro ⟨⟨⟩, _⟩
        rfl
    | error violation =>
      constructor
      · rintro ⟨⟩
      · rintro ⟨⟨⟩, hp⟩
        rw [hq] at hp
        cases hp

/-- **A valid program that can be written is loaded again.** -/
theorem load_render (hvalid : p.validate = .ok ()) (h : p.Fits)
    (hnumber : ∀ x, p.tree.HasNumber x → x.ReadsBack) : load p.render = .ok p :=
  load_eq_ok_iff.2 ⟨parse?_render h hnumber, hvalid⟩

/-! ## What was read -/

theorem exists_of_ofJson? {json : Json} (h : ofJson? json = some p) :
    ∃ r, json.record ["types", "tree"] = some r ∧
      r.required "types" TypeTable.ofJson? = some p.types ∧
      r.required "tree" Tree.ofJson? = some p.tree := by
  simp only [ofJson?, Option.bind_eq_bind, Option.bind_eq_some_iff, Option.pure_def,
    Option.some.injEq] at h
  obtain ⟨r, hr, types, htypes, tree, htree, rfl⟩ := h
  exact ⟨r, hr, htypes, htree⟩

theorem fits_of_parse? {text : String} (h : parse? text = some p) : p.Fits := by
  obtain ⟨json, _, hread⟩ := Option.bind_eq_some_iff.1 h
  obtain ⟨r, _, htypes, htree⟩ := exists_of_ofJson? hread
  obtain ⟨_, _, htypes⟩ := Record.exists_of_required htypes
  obtain ⟨_, _, htree⟩ := Record.exists_of_required htree
  exact ⟨TypeTable.fits_of_ofJson? htypes, Tree.fits_of_ofJson? htree⟩

theorem isFinite_of_parse? {text : String} (h : parse? text = some p) {x : Binary64}
    (hx : p.tree.HasNumber x) : x.isFinite = true := by
  obtain ⟨json, hparse, hread⟩ := Option.bind_eq_some_iff.1 h
  obtain ⟨r, hr, _, htree⟩ := exists_of_ofJson? hread
  obtain ⟨tree, htree, hread⟩ := Record.exists_of_required htree
  have hbounded := Json.bounded_record (Json.bounded_of_parse? hparse) hr "tree" tree htree
  exact Tree.isFinite_of_ofJson? hbounded hread hx

/-- **A program that was loaded is loaded again from what is written for it, and so is a valid one
that was built, if its numbers have the width of numbers in a document and its number literals are
finite.**  Of writing and reading decimals it is assumed that each finite number in the program
reads back. -/
theorem render_reads_back (p : Program)
    (hreads : ∀ x, p.tree.HasNumber x → x.isFinite = true → x.ReadsBack) :
    (∀ text, load text = .ok p → load p.render = .ok p) ∧
    (p.validate = .ok () → p.Fits → (∀ x, p.tree.HasNumber x → x.isFinite = true) →
      load p.render = .ok p) := by
  constructor
  · intro text htext
    obtain ⟨hparse, hvalid⟩ := load_eq_ok_iff.1 htext
    exact load_render hvalid (fits_of_parse? hparse) fun x hx =>
      hreads x hx (isFinite_of_parse? hparse hx)
  · intro hvalid hfits hfinite
    exact load_render hvalid hfits fun x hx => hreads x hx (hfinite x hx)

/-- `new 1.5, new 1.5()`: the first call has no arguments, and the second an empty list of them. -/
def constructingProgram : Program :=
  ⟨.primitives, ⟨#[
    { kind := .literal (.number (.ofRatio 3 2)), type := some ⟨7⟩ },
    { kind := .construct ⟨0⟩ none },
    { kind := .literal (.number (.ofRatio 3 2)), type := some ⟨7⟩ },
    { kind := .construct ⟨2⟩ (some []) },
    { kind := .sequence [⟨1⟩, ⟨3⟩] },
    { kind := .expressionStatement ⟨4⟩ },
    { kind := .program [⟨5⟩] }], ⟨6⟩⟩⟩

/-- The same program as an array of its two parts. -/
def constructingDocument : Json :=
  .array [constructingProgram.types.toJson, constructingProgram.tree.toJson]

theorem constructingProgram_numbers {x : Binary64} (h : constructingProgram.tree.HasNumber x) :
    x = .ofRatio 3 2 := by
  obtain ⟨n, hn, hx⟩ := h
  have hall : ∀ n ∈ constructingProgram.tree.nodes, ∀ v, n.kind = .literal v →
      v = .number (.ofRatio 3 2) := by
    simp [constructingProgram]
  cases hall n hn _ hx
  rfl

theorem constructingProgram_reads_back :
    constructingProgram.validate = .ok () ∧ constructingProgram.Fits ∧
    (∀ x, constructingProgram.tree.HasNumber x → x.isFinite = true) ∧
    load constructingDocument.render = .ok constructingProgram ∧
    load constructingProgram.render = .ok constructingProgram := by
  have hvalid : constructingProgram.validate = .ok () := rfl
  have hfits : constructingProgram.Fits := by decide +kernel
  have hreads : ∀ x, constructingProgram.tree.HasNumber x → x.isFinite = true → x.ReadsBack := by
    intro x hx _
    rw [constructingProgram_numbers hx]
    decide +kernel
  have hfinite : ∀ x, constructingProgram.tree.HasNumber x → x.isFinite = true := by
    intro x hx
    rw [constructingProgram_numbers hx]
    decide +kernel
  have hdocument : constructingDocument.Legible 127 := by
    cases (stores 120 hfits fun x hx => hreads x hx (hfinite x hx)).legible with
    | object hfields => exact .array (by simpa [constructingDocument] using hfields)
  have hload : load constructingDocument.render = .ok constructingProgram := by
    refine load_eq_ok_iff.2 ⟨?_, hvalid⟩
    rw [parse?, Json.parse?_render hdocument]
    decide +kernel
  exact ⟨hvalid, hfits, hfinite, hload, (render_reads_back _ hreads).1 _ hload⟩

end Program

end ResultLint
