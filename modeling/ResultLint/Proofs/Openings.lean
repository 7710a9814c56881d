import Mathlib
import ResultLint.Proofs.Leaves

/-!
# Unions opened once

The members of a union are found depth first, and a union is opened where it is met first.  An
**opening** is the tree of the places that are met on the way: a place has parts where a union was
opened, one for each member that it lists, and none elsewhere.

* `DepthFirst`: a union is opened at its first place and nowhere else.
* `exists_firstOnly`, `FirstOnly.unique`: there is one such opening of every number.
* `FirstOnly.expand_eq`: **the expansion is what is not a union at the places of the opening.**
* `DepthFirst.mem_numbers_iff`: the opening has a place for what is reached through unions, and for
  nothing else.
* `FirstOnly.sum_count`: **what is listed is found as often as it is listed**, each union counted
  once.
* `unionMembers_opened`: the members of a union, their numbers and their order.
-/

namespace ResultLint

open Relation (ReflTransGen)

/-- A place, and the places of its parts. -/
inductive Opening where
  | node (number : TypeId) (parts : List Opening)

namespace Opening

def number : Opening → TypeId
  | node number _ => number

def parts : Opening → List Opening
  | node _ parts => parts

theorem ind {P : Opening → Prop} (h : ∀ n parts, (∀ o ∈ parts, P o) → P (node n parts)) :
    ∀ o, P o
  | node n parts => h n parts fun o _ => ind h o

mutual

/-- All places of an opening, each in front of its parts and these in their order. -/
def places : Opening → List Opening
  | node n parts => node n parts :: placesAll parts

def placesAll : List Opening → List Opening
  | [] => []
  | o :: rest => o.places ++ placesAll rest

end

/-- The numbers at the places of an opening. -/
def numbers (o : Opening) : List TypeId := o.places.map number

/-- The parts of each place are the members that are listed at its number, if the number is neither
among those `seen` nor at a place before, and none otherwise. -/
def FirstOnly (t : TypeTable) (seen : List TypeId) (ps : List Opening) : Prop :=
  ∀ before place after, ps = before ++ place :: after →
    place.parts.map number =
      if place.number ∈ seen ∨ place.number ∈ before.map number then []
      else t.unions.parts place.number

/-- **A union is opened at its first place and nowhere else.** -/
def DepthFirst (t : TypeTable) (o : Opening) : Prop :=
  ∀ before place after, o.places = before ++ place :: after →
    place.parts.map number =
      if place.number ∈ before.map number then [] else t.unions.parts place.number

/-! ## Places -/

theorem places_eq (o : Opening) : o.places = o :: placesAll o.parts := by
  cases o
  rw [places]
  rfl

theorem placesAll_append (xs ys : List Opening) :
    placesAll (xs ++ ys) = placesAll xs ++ placesAll ys := by
  induction xs with
  | nil => rfl
  | cons o xs ih => rw [List.cons_append, placesAll, placesAll, ih, List.append_assoc]

/-- The first place of some openings is that of the first; then come its parts. -/
theorem placesAll_cons (o : Opening) (rest : List Opening) :
    placesAll (o :: rest) = o :: placesAll (o.parts ++ rest) := by
  rw [placesAll, places_eq, placesAll_append, List.cons_append]

theorem placesAll_singleton (o : Opening) : placesAll [o] = o.places := by
  rw [placesAll, placesAll, List.append_nil]

theorem mem_placesAll {p : Opening} {os : List Opening} :
    p ∈ placesAll os ↔ ∃ o ∈ os, p ∈ o.places := by
  induction os with
  | nil => simp [placesAll]
  | cons o os ih => simp [placesAll, ih]

theorem mem_places_self (o : Opening) : o ∈ o.places := by
  rw [places_eq]
  exact List.mem_cons_self

/-- The parts of a place are places. -/
theorem part_mem_places {o p q : Opening} (hp : p ∈ o.places) (hq : q ∈ p.parts) :
    q ∈ o.places := by
  induction o using ind with
  | h n parts ih =>
    rw [places_eq, List.mem_cons, mem_placesAll] at hp ⊢
    right
    rcases hp with rfl | ⟨o, ho, hp⟩
    · exact ⟨q, hq, mem_places_self q⟩
    · exact ⟨o, ho, ih o ho hp⟩

/-! ## Opening at first places -/

section

variable {t : TypeTable} {seen : List TypeId}

theorem firstOnly_nil : FirstOnly t seen [] := by
  intro before place after h
  simp at h

/-- What the first place has for parts, and that the rest has seen it. -/
theorem firstOnly_cons {p : Opening} {ps : List Opening} :
    FirstOnly t seen (p :: ps) ↔
      p.parts.map number = (if p.number ∈ seen then [] else t.unions.parts p.number) ∧
        FirstOnly t (p.number :: seen) ps := by
  constructor
  · intro h
    refine ⟨by simpa using h [] p ps rfl, fun before place after hps => ?_⟩
    have hplace := h (p :: before) place after (by rw [hps, List.cons_append])
    rw [hplace]
    refine if_congr ?_ rfl rfl
    rw [List.map_cons, List.mem_cons, List.mem_cons]
    tauto
  · rintro ⟨hp, hps⟩ before place after h
    cases before with
    | nil =>
      obtain ⟨rfl, -⟩ := List.cons.inj h
      simpa using hp
    | cons q before =>
      obtain ⟨rfl, hrest⟩ := List.cons.inj h
      rw [hps before place after hrest]
      refine if_congr ?_ rfl rfl
      rw [List.map_cons, List.mem_cons, List.mem_cons]
      tauto

theorem firstOnly_placesAll_cons {o : Opening} {rest : List Opening} :
    FirstOnly t seen (placesAll (o :: rest)) ↔
      o.parts.map number = (if o.number ∈ seen then [] else t.unions.parts o.number) ∧
        FirstOnly t (o.number :: seen) (placesAll (o.parts ++ rest)) := by
  rw [placesAll_cons, firstOnly_cons]

theorem depthFirst_iff {o : Opening} : o.DepthFirst t ↔ FirstOnly t [] (placesAll [o]) := by
  simp only [DepthFirst, FirstOnly, placesAll_singleton, List.not_mem_nil, false_or]

theorem unions_parts_of_closed {id : TypeId} (h : ¬ t.unions.opens id = true) :
    t.unions.parts id = [] := by
  have hnone : t.union? id = none := by simpa [TypeTable.unions] using h
  show (t.union? id).getD [] = []
  rw [hnone]
  rfl

/-- Unions are fresh as long as they are not seen. -/
def FreshUnless (t : TypeTable) (fresh seen : List TypeId) : Prop :=
  ∀ id, t.unions.opens id = true → (id ∈ fresh ↔ id ∉ seen)

namespace FreshUnless

variable {fresh : List TypeId}

theorem open_first (h : FreshUnless t fresh seen) (id : TypeId) :
    FreshUnless t (Expansion.without fresh id) (id :: seen) := by
  intro other hopens
  rw [Expansion.mem_without, h other hopens, List.mem_cons, not_or, and_comm]

theorem pass (h : FreshUnless t fresh seen) {id : TypeId}
    (hid : id ∈ seen ∨ ¬ t.unions.opens id = true) : FreshUnless t fresh (id :: seen) := by
  intro other hopens
  rw [h other hopens, List.mem_cons, not_or]
  refine ⟨fun hother => ⟨?_, hother⟩, fun hother => hother.2⟩
  rintro rfl
  rcases hid with hid | hid
  · exact hother hid
  · exact hid hopens

theorem mem_seen (h : FreshUnless t fresh seen) {id : TypeId} (hopens : t.unions.opens id = true)
    (hid : id ∉ fresh) : id ∈ seen := by
  by_contra hseen
  exact hid ((h id hopens).2 hseen)

end FreshUnless

/-- A place without parts in front of other openings. -/
theorem firstOnly_passed_iff {id : TypeId} {others : List Opening}
    (hid : id ∈ seen ∨ ¬ t.unions.opens id = true) :
    FirstOnly t seen (placesAll (node id [] :: others)) ↔
      FirstOnly t (id :: seen) (placesAll others) := by
  have hnone : (if id ∈ seen then [] else t.unions.parts id) = [] := by
    rcases hid with hid | hid
    · exact if_pos hid
    · rw [unions_parts_of_closed hid, ite_self]
  rw [firstOnly_placesAll_cons, number, hnone]
  exact and_iff_right rfl

/-- There is an opening of every worklist. -/
theorem exists_firstOnly {fresh : List TypeId} (work : List TypeId)
    (h : FreshUnless t fresh seen) :
    ∃ os : List Opening, os.map number = work ∧ FirstOnly t seen (placesAll os) := by
  fun_induction Expansion.expand t.unions fresh work generalizing seen with
  | case1 fresh => exact ⟨[], rfl, firstOnly_nil⟩
  | case2 fresh id rest hopens hfresh ih =>
    obtain ⟨os, hos, hfirst⟩ := ih (h.open_first id)
    obtain ⟨parts, others, rfl, hparts, hothers⟩ := List.map_eq_append_iff.1 hos
    refine ⟨node id parts :: others, congrArg (id :: ·) hothers, firstOnly_placesAll_cons.2 ?_⟩
    have hseen : (node id parts).number ∉ seen := (h id hopens).1 hfresh
    rw [if_neg hseen]
    exact ⟨hparts, hfirst⟩
  | case3 fresh id rest hopens hfresh ih =>
    have hid : id ∈ seen ∨ ¬ t.unions.opens id = true := Or.inl (h.mem_seen hopens hfresh)
    obtain ⟨os, hos, hfirst⟩ := ih (h.pass hid)
    exact ⟨node id [] :: os, congrArg (id :: ·) hos, (firstOnly_passed_iff hid).2 hfirst⟩
  | case4 fresh id rest hclosed ih =>
    have hid : id ∈ seen ∨ ¬ t.unions.opens id = true := Or.inr hclosed
    obtain ⟨os, hos, hfirst⟩ := ih (h.pass hid)
    exact ⟨node id [] :: os, congrArg (id :: ·) hos, (firstOnly_passed_iff hid).2 hfirst⟩

namespace FirstOnly

/-- A union that was not seen is opened at the first place, and its members are met next. -/
theorem opened {os : List Opening} {id : TypeId} {rest : List TypeId}
    (h : FirstOnly t seen (placesAll os)) (hos : os.map number = id :: rest) (hid : id ∉ seen) :
    ∃ parts others, os = node id parts :: others ∧ parts.map number = t.unions.parts id ∧
      (parts ++ others).map number = t.unions.parts id ++ rest ∧
      FirstOnly t (id :: seen) (placesAll (parts ++ others)) := by
  obtain ⟨⟨n, parts⟩, others, rfl, rfl, hothers⟩ := List.map_eq_cons_iff.1 hos
  obtain ⟨hparts, hfirst⟩ := firstOnly_placesAll_cons.1 h
  have hlisted : parts.map number = t.unions.parts n := hparts.trans (if_neg hid)
  refine ⟨parts, others, rfl, hlisted, ?_, hfirst⟩
  rw [List.map_append, hlisted, hothers]
  rfl

/-- Anything else is passed. -/
theorem passed {os : List Opening} {id : TypeId} {rest : List TypeId}
    (h : FirstOnly t seen (placesAll os)) (hos : os.map number = id :: rest)
    (hid : id ∈ seen ∨ ¬ t.unions.opens id = true) :
    ∃ others, os = node id [] :: others ∧ others.map number = rest ∧
      FirstOnly t (id :: seen) (placesAll others) := by
  obtain ⟨⟨n, parts⟩, others, rfl, rfl, hothers⟩ := List.map_eq_cons_iff.1 hos
  have hparts : parts.map number = if n ∈ seen then [] else t.unions.parts n :=
    (firstOnly_placesAll_cons.1 h).1
  have hnone : parts = [] := by
    rcases hid with hid | hid
    · exact List.map_eq_nil_iff.1 (hparts.trans (if_pos hid))
    · have hclosed : t.unions.parts n = [] := unions_parts_of_closed hid
      rw [hclosed, ite_self] at hparts
      exact List.map_eq_nil_iff.1 hparts
  subst hnone
  exact ⟨others, rfl, hothers, (firstOnly_passed_iff hid).1 h⟩

/-- **There is only one opening of a worklist.** -/
theorem unique {fresh work : List TypeId} {os os' : List Opening}
    (hfirst : FirstOnly t seen (placesAll os)) (hfirst' : FirstOnly t seen (placesAll os'))
    (h : FreshUnless t fresh seen) (hos : os.map number = work) (hos' : os'.map number = work) :
    os = os' := by
  fun_induction Expansion.expand t.unions fresh work generalizing seen os os' with
  | case1 fresh => rw [List.map_eq_nil_iff.1 hos, List.map_eq_nil_iff.1 hos']
  | case2 fresh id rest hopens hfresh ih =>
    have hseen : id ∉ seen := (h id hopens).1 hfresh
    obtain ⟨parts, others, rfl, hparts, hwork, hnext⟩ := hfirst.opened hos hseen
    obtain ⟨parts', others', rfl, hparts', hwork', hnext'⟩ := hfirst'.opened hos' hseen
    have heq : parts ++ others = parts' ++ others' :=
      ih hnext hnext' (h.open_first id) hwork hwork'
    have hlength : parts.length = parts'.length := by
      simpa using congrArg List.length (hparts.trans hparts'.symm)
    obtain ⟨rfl, rfl⟩ := List.append_inj heq hlength
    rfl
  | case3 fresh id rest hopens hfresh ih =>
    have hid : id ∈ seen ∨ ¬ t.unions.opens id = true := Or.inl (h.mem_seen hopens hfresh)
    obtain ⟨others, rfl, hothers, hnext⟩ := hfirst.passed hos hid
    obtain ⟨others', rfl, hothers', hnext'⟩ := hfirst'.passed hos' hid
    rw [ih hnext hnext' (h.pass hid) hothers hothers']
  | case4 fresh id rest hclosed ih =>
    obtain ⟨others, rfl, hothers, hnext⟩ := hfirst.passed hos (Or.inr hclosed)
    obtain ⟨others', rfl, hothers', hnext'⟩ := hfirst'.passed hos' (Or.inr hclosed)
    rw [ih hnext hnext' (h.pass (Or.inr hclosed)) hothers hothers']

/-- **The expansion is what is not a union at the places of the opening.** -/
theorem expand_eq {fresh work : List TypeId} {os : List Opening}
    (hfirst : FirstOnly t seen (placesAll os)) (h : FreshUnless t fresh seen)
    (hos : os.map number = work) :
    t.unions.expand fresh work =
      ((placesAll os).map number).filter fun m => !t.unions.opens m := by
  fun_induction Expansion.expand t.unions fresh work generalizing seen os with
  | case1 fresh =>
    rw [List.map_eq_nil_iff.1 hos]
    rfl
  | case2 fresh id rest hopens hfresh ih =>
    obtain ⟨parts, others, rfl, -, hwork, hnext⟩ := hfirst.opened hos ((h id hopens).1 hfresh)
    rw [ih hnext (h.open_first id) hwork, placesAll_cons, List.map_cons]
    exact (List.filter_cons_of_neg (by simp [number, hopens])).symm
  | case3 fresh id rest hopens hfresh ih =>
    have hid : id ∈ seen ∨ ¬ t.unions.opens id = true := Or.inl (h.mem_seen hopens hfresh)
    obtain ⟨others, rfl, hothers, hnext⟩ := hfirst.passed hos hid
    rw [ih hnext (h.pass hid) hothers, placesAll_cons, List.map_cons]
    exact (List.filter_cons_of_neg (by simp [number, hopens])).symm
  | case4 fresh id rest hclosed ih =>
    obtain ⟨others, rfl, hothers, hnext⟩ := hfirst.passed hos (Or.inr hclosed)
    rw [ih hnext (h.pass (Or.inr hclosed)) hothers, placesAll_cons, List.map_cons]
    exact (List.filter_cons_of_pos (by simpa [number] using hclosed)).symm

end FirstOnly

/-! ## What is reached, and how often it is listed -/

/-- The members that are listed at a place, and no others, stand below it. -/
theorem FirstOnly.part {ps : List Opening} (h : FirstOnly t seen ps) {p q : Opening} (hp : p ∈ ps)
    (hq : q ∈ p.parts) : q.number ∈ t.unions.parts p.number := by
  obtain ⟨before, after, rfl⟩ := List.append_of_mem hp
  have hmem : q.number ∈ p.parts.map number := List.mem_map_of_mem hq
  rw [h before p after rfl] at hmem
  split at hmem
  next => simp at hmem
  next => exact hmem

/-- A number that is at some place is opened at the first. -/
theorem FirstOnly.exists_opened {ps : List Opening} (h : FirstOnly t [] ps) {u : TypeId}
    (hu : u ∈ ps.map number) :
    ∃ p ∈ ps, p.number = u ∧ p.parts.map number = t.unions.parts u := by
  obtain ⟨before, after, hps, hnot⟩ := List.eq_append_cons_of_mem hu
  obtain ⟨front, back, rfl, rfl, hback⟩ := List.map_eq_append_iff.1 hps
  obtain ⟨p, others, rfl, rfl, -⟩ := List.map_eq_cons_iff.1 hback
  refine ⟨p, by simp, rfl, ?_⟩
  rw [h front p others rfl, if_neg (by simpa using hnot)]

theorem mem_unions_parts_iff {a b : TypeId} : b ∈ t.unions.parts a ↔ t.Member a b := by
  show b ∈ (t.union? a).getD [] ↔ t.Member a b
  unfold TypeTable.union? TypeTable.Member
  split
  next members ha => simp [ha]
  next hother =>
    refine iff_of_false (by simp) ?_
    rintro ⟨members, ha, -⟩
    exact hother members ha

/-- Whatever stands below an opening is reached from it, if parts are members. -/
theorem path_of_mem_places {o p : Opening}
    (h : ∀ p ∈ o.places, ∀ q ∈ p.parts, t.Member p.number q.number) (hp : p ∈ o.places) :
    ReflTransGen t.Member o.number p.number := by
  induction o using ind with
  | h n parts ih =>
    have hbelow : ∀ c ∈ parts, ∀ p ∈ c.places, p ∈ (node n parts).places := by
      intro c hc p hp
      rw [places_eq, List.mem_cons, mem_placesAll]
      exact Or.inr ⟨c, hc, hp⟩
    rw [places_eq, List.mem_cons, mem_placesAll] at hp
    rcases hp with rfl | ⟨c, hc, hp⟩
    · exact .refl
    · have hfirst : t.Member n c.number := h _ (mem_places_self _) c hc
      exact .head hfirst (ih c hc (fun p hp => h p (hbelow c hc p hp)) hp)

/-- **An opening has a place for what is reached through unions, and for nothing else.** -/
theorem DepthFirst.mem_numbers_iff {o : Opening} (h : o.DepthFirst t) {u : TypeId} :
    u ∈ o.numbers ↔ ReflTransGen t.Member o.number u := by
  have hfirst : FirstOnly t [] o.places := placesAll_singleton o ▸ depthFirst_iff.1 h
  constructor
  · intro hu
    obtain ⟨p, hp, rfl⟩ := List.mem_map.1 hu
    exact path_of_mem_places (fun p hp q hq => mem_unions_parts_iff.1 (hfirst.part hp hq)) hp
  · intro hpath
    induction hpath with
    | refl => exact List.mem_map_of_mem (mem_places_self o)
    | @tail u v _ huv ih =>
      obtain ⟨p, hp, -, hparts⟩ := hfirst.exists_opened ih
      have hv : v ∈ p.parts.map number := hparts ▸ mem_unions_parts_iff.2 huv
      obtain ⟨q, hq, rfl⟩ := List.mem_map.1 hv
      exact List.mem_map_of_mem (part_mem_places hp hq)

/-- How often a number stands directly below some places. -/
def countParts (m : TypeId) (ps : List Opening) : Nat :=
  (ps.map fun p => (p.parts.map number).count m).sum

theorem countParts_cons (m : TypeId) (p : Opening) (ps : List Opening) :
    countParts m (p :: ps) = (p.parts.map number).count m + countParts m ps := rfl

theorem countParts_append (m : TypeId) (ps qs : List Opening) :
    countParts m (ps ++ qs) = countParts m ps + countParts m qs := by
  rw [countParts, List.map_append, List.sum_append]
  rfl

/-- Every place but the first is that of a part. -/
theorem count_numbers (o : Opening) (m : TypeId) :
    o.numbers.count m = [o.number].count m + countParts m o.places := by
  induction o using ind with
  | h n parts ih =>
    have hparts : ((placesAll parts).map number).count m =
        (parts.map number).count m + countParts m (placesAll parts) := by
      induction parts with
      | nil => rfl
      | cons c rest ihrest =>
        have hc : (c.places.map number).count m = [c.number].count m + countParts m c.places :=
          ih c List.mem_cons_self
        have hrest := ihrest fun o ho => ih o (List.mem_cons_of_mem c ho)
        have hsplit : ((c :: rest).map number).count m =
            [c.number].count m + (rest.map number).count m := by
          show ([c.number] ++ rest.map number).count m = _
          exact List.count_append
        rw [placesAll, List.map_append, List.count_append, countParts_append, hc, hrest, hsplit]
        omega
    have hfirst : (node n parts).numbers.count m =
        [n].count m + ((placesAll parts).map number).count m := by
      show ([n] ++ (placesAll parts).map number).count m = _
      exact List.count_append
    rw [hfirst, hparts, places_eq, countParts_cons]
    rfl

/-- **What is listed at the places is listed at their numbers**, each number counted once. -/
theorem FirstOnly.sum_count {ps : List Opening} (h : FirstOnly t seen ps) (m : TypeId) :
    countParts m ps =
      ∑ u ∈ (ps.map number).toFinset \ seen.toFinset, (t.unions.parts u).count m := by
  induction ps generalizing seen with
  | nil => simp [countParts]
  | cons p ps ih =>
    obtain ⟨hp, hps⟩ := firstOnly_cons.1 h
    rw [countParts_cons, hp, ih hps, List.map_cons, List.toFinset_cons, List.toFinset_cons]
    by_cases hseen : p.number ∈ seen
    · have hsame : (ps.map number).toFinset \ insert p.number seen.toFinset =
          insert p.number (ps.map number).toFinset \ seen.toFinset := by
        ext u
        simp only [Finset.mem_sdiff, Finset.mem_insert, List.mem_toFinset]
        grind
      rw [if_pos hseen, hsame, List.count_nil, Nat.zero_add]
    · have hnew : insert p.number (ps.map number).toFinset \ seen.toFinset =
          insert p.number ((ps.map number).toFinset \ insert p.number seen.toFinset) := by
        ext u
        simp only [Finset.mem_sdiff, Finset.mem_insert, List.mem_toFinset]
        grind
      rw [if_neg hseen, hnew, Finset.sum_insert (by simp)]

end

end Opening

/-! ## Members of unions -/

namespace TypeTable

open Opening

variable {t : TypeTable}

open Classical in
/-- The unions that are reached from a number through members of unions. -/
noncomputable def unionsFrom (t : TypeTable) (id : TypeId) : Finset TypeId :=
  t.ids.toFinset.filter fun u => (t.union? u).isSome ∧ ReflTransGen t.Member id u

theorem mem_unionsFrom {id u : TypeId} :
    u ∈ t.unionsFrom id ↔ (t.union? u).isSome ∧ ReflTransGen t.Member id u := by
  simp only [unionsFrom, Finset.mem_filter, List.mem_toFinset]
  exact and_iff_right_of_imp fun h => mem_ids_of_isSome_union? h.1

theorem freshUnless_ids (t : TypeTable) : FreshUnless t t.ids [] := by
  intro id hopens
  exact iff_of_true (mem_ids_of_isSome_union? hopens) List.not_mem_nil

/-- **There is one opening of every number.** -/
theorem exists_depthFirst (t : TypeTable) (id : TypeId) :
    ∃ o : Opening, o.number = id ∧ o.DepthFirst t ∧
      ∀ o' : Opening, o'.number = id → o'.DepthFirst t → o' = o := by
  obtain ⟨os, hos, hfirst⟩ := exists_firstOnly [id] t.freshUnless_ids
  obtain ⟨o, rfl, ho⟩ := List.map_eq_singleton_iff.1 hos
  refine ⟨o, ho, depthFirst_iff.2 hfirst, fun o' ho' hfirst' => ?_⟩
  have heq : [o'] = [o] :=
    (depthFirst_iff.1 hfirst').unique hfirst t.freshUnless_ids (congrArg (fun n => [n]) ho') hos
  exact List.singleton_inj.1 heq

theorem unionMembers_eq_of_depthFirst {o : Opening} (h : o.DepthFirst t) :
    t.unionMembers o.number = o.numbers.filter fun m => (t.union? m).isNone := by
  have hexpand : t.unions.expand t.ids [o.number] = _ :=
    (depthFirst_iff.1 h).expand_eq t.freshUnless_ids rfl
  rw [unionMembers_eq_expand, hexpand, placesAll_singleton]
  refine List.filter_congr fun m _ => ?_
  show (!(t.union? m).isSome) = (t.union? m).isNone
  cases t.union? m <;> rfl

/-- **What is not a union is found as often as the unions that are reached list it.** -/
theorem count_unionMembers {id m : TypeId} (hid : (t.union? id).isSome) (hm : t.union? m = none) :
    (t.unionMembers id).count m = ∑ u ∈ t.unionsFrom id, (t.unions.parts u).count m := by
  obtain ⟨o, rfl, hfirst, -⟩ := t.exists_depthFirst id
  have hne : [o.number].count m = 0 := by
    refine List.count_eq_zero.2 fun hmem => ?_
    rw [← List.mem_singleton.1 hmem, hm] at hid
    cases hid
  have hplaces := (depthFirst_iff.1 hfirst).sum_count m
  rw [placesAll_singleton, List.toFinset_nil, Finset.sdiff_empty] at hplaces
  -- numbers that are no unions list nothing
  have hunions : ∑ u ∈ t.unionsFrom o.number, (t.unions.parts u).count m =
      ∑ u ∈ (o.places.map number).toFinset, (t.unions.parts u).count m := by
    refine Finset.sum_subset (fun u hu => ?_) fun u hu hnot => ?_
    · exact List.mem_toFinset.2 (hfirst.mem_numbers_iff.2 (mem_unionsFrom.1 hu).2)
    · have hclosed : ¬ t.unions.opens u = true := fun hopens => hnot (mem_unionsFrom.2
        ⟨hopens, hfirst.mem_numbers_iff.1 (List.mem_toFinset.1 hu)⟩)
      rw [unions_parts_of_closed hclosed, List.count_nil]
  rw [unionMembers_eq_of_depthFirst hfirst, List.count_filter (by rw [hm]; rfl), count_numbers, hne,
    Nat.zero_add, hplaces, hunions]

/-- **Unions are opened once.**  In any table, a number that is no union is its only member.  The
members of a union are no unions; each is found as often as it is listed in all unions that are
reached, and in the order in which it is listed when every union is opened where it is met first. -/
theorem unionMembers_opened (t : TypeTable) (id : TypeId) :
    (t.union? id = none → t.unionMembers id = [id]) ∧
    (t.union? id ≠ none →
      (∀ m ∈ t.unionMembers id, t.union? m = none) ∧
      (∀ m, t.union? m = none →
        (t.unionMembers id).count m = ∑ u ∈ t.unionsFrom id, (t.unions.parts u).count m) ∧
      ∃ o : Opening, o.number = id ∧ o.DepthFirst t ∧
        (∀ o' : Opening, o'.number = id → o'.DepthFirst t → o' = o) ∧
        (∀ u, u ∈ o.numbers ↔ ReflTransGen t.Member id u) ∧
        t.unionMembers id = o.numbers.filter fun m => (t.union? m).isNone) := by
  refine ⟨fun hid => ?_, fun hid => ⟨fun m hm => ?_, fun m hm => ?_, ?_⟩⟩
  · rw [unionMembers_eq_expand]
    refine Expansion.expand_eq_self fun other hother => ?_
    rw [List.mem_singleton.1 hother]
    show (t.union? id).isSome = false
    rw [hid]
    rfl
  · exact (mem_unionMembers_iff.1 hm).1
  · exact count_unionMembers (Option.isSome_iff_ne_none.2 hid) hm
  · obtain ⟨o, rfl, hfirst, hunique⟩ := t.exists_depthFirst id
    exact ⟨o, rfl, hfirst, hunique, fun u => hfirst.mem_numbers_iff,
      unionMembers_eq_of_depthFirst hfirst⟩

end TypeTable

end ResultLint
