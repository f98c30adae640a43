import RustDb.Lib.Collections

/-!
# Lists and functions that may fail

A function `α → Option β` applied to all elements of a list fails when it fails on one.

* `tryFilter`, `tryFlatMap`: the filter and the concatenation of partial functions.
* `BindRelation`: relations between partial results that sequencing respects, such as
  equality and `Below`, which lets an error become a result.
* `filter_tryFlatMap`: a filter moves in front of a concatenation when its test on a result
  is a test on the element that the result comes from.
-/

namespace RustDb.Lib

open List Option

variable {α β γ : Type}

/-! ## Maps -/

variable {l : List α} {bs : List β} {p : α → Option Bool} {f : α → Option (List β)}

theorem mapM_isSome_iff {f : α → Option β} :
    (l.mapM f).isSome = true ↔ ∀ a ∈ l, (f a).isSome = true := by
  induction l with
  | nil => simp
  | cons a l ih =>
    rw [mapM_cons, forall_mem_cons, ← ih]
    cases f a <;> cases l.mapM f <;> simp

theorem mapM_congr {f g : α → Option β} (h : ∀ a ∈ l, f a = g a) :
    l.mapM f = l.mapM g := by
  induction l with
  | nil => rfl
  | cons a l ih =>
    obtain ⟨ha, hl⟩ := forall_mem_cons.mp h
    rw [mapM_cons, mapM_cons, ha, ih hl]

theorem mapM_map (f : α → β) (g : β → Option γ) (l : List α) :
    (l.map f).mapM g = l.mapM fun x => g (f x) := by
  induction l with
  | nil => rfl
  | cons x l ih => rw [map_cons, mapM_cons, mapM_cons, ih]

/-- A function that has a result on every element. -/
theorem mapM_eq_some_map {f : α → Option β} {g : α → β}
    (h : ∀ a ∈ l, f a = some (g a)) : l.mapM f = some (l.map g) := by
  induction l with
  | nil => rfl
  | cons a l ih =>
    obtain ⟨ha, hl⟩ := forall_mem_cons.mp h
    rw [mapM_cons, ha, ih hl]
    rfl

theorem length_eq_of_mapM {f : α → Option β}
    (h : l.mapM f = some bs) : bs.length = l.length :=
  (mapM_eq_some.mp h).length_eq.symm

variable {a : α}

theorem getElem?_of_mapM {f : α → Option β} (h : l.mapM f = some bs) {i : Nat}
    (ha : l[i]? = some a) : bs[i]? = f a := by
  have hall := mapM_eq_some.mp h
  induction hall generalizing i with
  | nil => simp at ha
  | @cons head b l bs hhead hrest ih =>
    cases i with
    | zero =>
      cases ha
      exact hhead.symm
    | succ i => exact ih (mapM_eq_some.mpr hrest) (by simpa using ha)

/-- A result comes from an element. -/
theorem exists_of_mem_mapM {f : α → Option β}
    (h : l.mapM f = some bs) {b : β} (hb : b ∈ bs) : ∃ a ∈ l, f a = some b :=
  exists_mem_of_forall₂ (mapM_eq_some.mp h) hb

/-- An element has a result. -/
theorem exists_mem_of_mapM {f : α → Option β} (h : l.mapM f = some bs) (ha : a ∈ l) :
    ∃ b ∈ bs, f a = some b := by
  obtain ⟨b, hb, hab⟩ := exists_mem_zip_of_forall₂ (mapM_eq_some.mp h) ha
  exact ⟨b, (of_mem_zip hb).2, hab⟩

/-- The results of two functions on one list belong to common elements. -/
theorem forall₂_of_common {R : α → β → Prop} {S : α → γ → Prop}
    {cs : List γ} (hbs : Forall₂ R l bs) (hcs : Forall₂ S l cs) :
    Forall₂ (fun b c => ∃ a ∈ l, R a b ∧ S a c) bs cs := by
  induction hbs generalizing cs with
  | nil =>
    cases hcs
    exact .nil
  | @cons a b l bs hab _ ih =>
    cases hcs with
    | cons hac hrest =>
      refine .cons ⟨a, mem_cons_self, hab, hac⟩ ((ih hrest).imp ?_)
      rintro b c ⟨a, ha, h⟩
      exact ⟨a, mem_cons_of_mem _ ha, h⟩

variable {q : α → Bool}

/-- A total test on the results is a test on the elements. -/
theorem mapM_filter {f : α → Option β} {p : β → Bool} (h : l.mapM f = some bs)
    (hpq : ∀ a ∈ l, ∀ b, f a = some b → p b = q a) :
    (l.filter q).mapM f = some (bs.filter p) := by
  have hall := mapM_eq_some.mp h
  clear h
  induction hall with
  | nil => rfl
  | @cons a b l bs hab _ ih =>
    obtain ⟨hhead, htail⟩ := forall_mem_cons.mp hpq
    have hrest := ih htail
    cases hq : q a
    · rw [filter_cons_of_neg (by simp [hq]), filter_cons_of_neg (by simp [hhead b hab, hq])]
      exact hrest
    · rw [filter_cons_of_pos hq, filter_cons_of_pos ((hhead b hab).trans hq), mapM_cons, hab, hrest]
      rfl

/-! ## Indices -/

/-- The elements whose index passes a test. -/
def keepIndices (keep : Nat → Bool) (l : List α) : List α :=
  (l.zipIdx.filter fun entry => keep entry.2).map Prod.fst

theorem mapM_keepIndices {f : α → Option β} {keep : Nat → Bool}
    (h : l.mapM f = some bs) : (keepIndices keep l).mapM f = some (keepIndices keep bs) := by
  unfold keepIndices
  generalize 0 = start
  have hall := mapM_eq_some.mp h
  clear h
  induction hall generalizing start with
  | nil => rfl
  | @cons a b l bs hab _ ih =>
    rw [zipIdx_cons, zipIdx_cons]
    cases hkeep : keep start
    · rw [filter_cons_of_neg (by simp [hkeep]), filter_cons_of_neg (by simp [hkeep])]
      exact ih (start + 1)
    · rw [filter_cons_of_pos (by simp [hkeep]), filter_cons_of_pos (by simp [hkeep]),
        map_cons, map_cons, mapM_cons, hab, ih (start + 1)]
      rfl

theorem map_snd_filter_zipIdx (keep : Nat → Bool) (l : List α) :
    (l.zipIdx.filter fun entry => keep entry.2).map Prod.snd =
      (List.range l.length).filter keep := by
  rw [List.range_eq_range', ← List.zipIdx_map_snd 0 l, List.filter_map]
  rfl

theorem length_keepIndices (keep : Nat → Bool) (l : List α) :
    (keepIndices keep l).length = ((range l.length).filter keep).length := by
  rw [keepIndices, length_map, ← map_snd_filter_zipIdx, length_map]

/-- The kept elements stand in the order of the kept indices. -/
theorem getElem?_keepIndices {keep : Nat → Bool} {position index : Nat}
    (h : ((range l.length).filter keep)[position]? = some index) :
    (keepIndices keep l)[position]? = l[index]? := by
  rw [← map_snd_filter_zipIdx, getElem?_map, map_eq_some_iff] at h
  obtain ⟨entry, hentry, rfl⟩ := h
  have hmem := (mem_filter.mp (mem_of_getElem? hentry)).1
  rw [keepIndices, getElem?_map, hentry, mem_zipIdx_iff_getElem?.mp hmem]
  rfl

/-! ## Filters -/

/-- The elements that pass a test that may fail; it must not fail on any of them. -/
def tryFilter (p : α → Option Bool) (l : List α) : Option (List α) :=
  if l.all (fun a => (p a).isSome) then some (l.filter fun a => p a = some true) else none

variable {l' : List α}

theorem tryFilter_eq_some :
    tryFilter p l = some l' ↔
      (∀ a ∈ l, (p a).isSome = true) ∧ l' = l.filter fun a => p a = some true := by
  unfold tryFilter
  split
  · next h =>
    rw [some_inj, eq_comm]
    exact (and_iff_right (all_eq_true.mp h)).symm
  · next h =>
    constructor
    · intro h'
      cases h'
    · intro h'
      exact absurd (all_eq_true.mpr h'.1) h

theorem tryFilter_eq_filter (h : ∀ a ∈ l, (p a).isSome = true) :
    tryFilter p l = some (l.filter fun a => p a = some true) :=
  tryFilter_eq_some.mpr ⟨h, rfl⟩

/-- Lists of related elements on which two tests agree have related filters. -/
theorem tryFilter_forall₂ {R : α → β → Prop} {q : β → Option Bool} (h : tryFilter p l = some l')
    (hall : Forall₂ R l bs) (hpq : ∀ a b, R a b → p a = q b) :
    ∃ bs', tryFilter q bs = some bs' ∧ Forall₂ R l' bs' := by
  obtain ⟨hsome, rfl⟩ := tryFilter_eq_some.mp h
  clear h
  induction hall with
  | nil => exact ⟨[], rfl, .nil⟩
  | @cons a b l bs hab _ ih =>
    obtain ⟨hhead, htail⟩ := forall_mem_cons.mp hsome
    obtain ⟨bs', hbs', hrelated⟩ := ih htail
    obtain ⟨hsomes, rfl⟩ := tryFilter_eq_some.mp hbs'
    have hagree := hpq a b hab
    have hq : (q b).isSome = true := hagree ▸ hhead
    refine ⟨_, tryFilter_eq_filter (forall_mem_cons.mpr ⟨hq, hsomes⟩), ?_⟩
    rw [filter_cons, filter_cons, hagree]
    split
    · exact .cons hab hrelated
    · exact hrelated

/-- A test that succeeds on the whole list succeeds on a part of it. -/
theorem tryFilter_filter (h : tryFilter p l = some l') :
    tryFilter p (l.filter q) = some (l'.filter q) := by
  obtain ⟨hsome, rfl⟩ := tryFilter_eq_some.mp h
  refine tryFilter_eq_some.mpr ⟨fun a ha => hsome a (mem_filter.mp ha).1, ?_⟩
  rw [List.filter_filter, List.filter_filter]
  exact filter_congr fun a _ => Bool.and_comm ..

/-- Two filters in a row are one filter with both tests. -/
theorem tryFilter_tryFilter {q r : α → Option Bool}
    (hp : ∀ a ∈ l, (p a).isSome = true) (hq : ∀ a ∈ l, (q a).isSome = true)
    (hr : ∀ a ∈ l, r a = some (p a = some true && q a = some true)) :
    (tryFilter p l).bind (tryFilter q) = tryFilter r l := by
  have hsome : ∀ a ∈ l, (r a).isSome = true := by
    intro a ha
    rw [hr a ha]
    rfl
  rw [tryFilter_eq_filter hp, tryFilter_eq_filter hsome, Option.bind_some,
    tryFilter_eq_filter fun a ha => hq a (List.mem_filter.mp ha).1, List.filter_filter]
  refine congrArg some (filter_congr fun a ha => ?_)
  rw [hr a ha, Bool.and_comm]
  simp

/-! ## Concatenations -/

/-- The lists of all elements, one after the other. -/
def tryFlatMap (f : α → Option (List β)) (l : List α) : Option (List β) :=
  (l.mapM f).map flatten

theorem tryFlatMap_eq_some :
    tryFlatMap f l = some bs ↔ ∃ parts, l.mapM f = some parts ∧ parts.flatten = bs :=
  map_eq_some_iff

theorem tryFlatMap_isSome_iff :
    (tryFlatMap f l).isSome = true ↔ ∀ a ∈ l, (f a).isSome = true := by
  rw [tryFlatMap, isSome_map, mapM_isSome_iff]

theorem tryFlatMap_eq_some_flatMap {g : α → List β}
    (h : ∀ a ∈ l, f a = some (g a)) : tryFlatMap f l = some (l.flatMap g) := by
  rw [tryFlatMap, mapM_eq_some_map h, flatMap_def]
  rfl

theorem tryFlatMap_cons {part : List β} (ha : f a = some part) (hl : tryFlatMap f l = some bs) :
    tryFlatMap f (a :: l) = some (part ++ bs) := by
  obtain ⟨parts, hparts, rfl⟩ := tryFlatMap_eq_some.mp hl
  refine tryFlatMap_eq_some.mpr ⟨part :: parts, ?_, rfl⟩
  rw [mapM_cons, ha, hparts]
  rfl

theorem tryFlatMap_cons_eq_some : tryFlatMap f (a :: l) = some bs ↔
      ∃ part rest, f a = some part ∧ tryFlatMap f l = some rest ∧ part ++ rest = bs := by
  constructor
  · intro h
    obtain ⟨parts, hparts, rfl⟩ := tryFlatMap_eq_some.mp h
    cases mapM_eq_some.mp hparts with
    | @cons _ part _ parts ha hrest =>
      exact ⟨part, parts.flatten, ha,
        tryFlatMap_eq_some.mpr ⟨parts, mapM_eq_some.mpr hrest, rfl⟩, rfl⟩
  · rintro ⟨part, rest, ha, hl, rfl⟩
    exact tryFlatMap_cons ha hl

section

variable (h : tryFlatMap f l = some bs)
include h

/-- A result comes from the list of an element. -/
theorem exists_of_mem_tryFlatMap {b : β} (hb : b ∈ bs) :
    ∃ a ∈ l, ∃ part, f a = some part ∧ b ∈ part := by
  obtain ⟨parts, hparts, rfl⟩ := tryFlatMap_eq_some.mp h
  obtain ⟨part, hpart, hb⟩ := mem_flatten.mp hb
  obtain ⟨a, ha, hfa⟩ := exists_of_mem_mapM hparts hpart
  exact ⟨a, ha, part, hfa, hb⟩

/-- A filter moves in front of a concatenation when its test on a result is a test on the
element that the result comes from. -/
theorem filter_tryFlatMap {p : β → Bool}
    (hpq : ∀ a ∈ l, ∀ part, f a = some part → ∀ b ∈ part, p b = q a) :
    tryFlatMap f (l.filter q) = some (bs.filter p) := by
  induction l generalizing bs with
  | nil =>
    cases h
    rfl
  | cons a l ih =>
    obtain ⟨part, rest, ha, hl, rfl⟩ := tryFlatMap_cons_eq_some.mp h
    obtain ⟨hhead, htail⟩ := forall_mem_cons.mp hpq
    have hpart := hhead part ha
    have hrest := ih hl htail
    rw [filter_append]
    cases hq : q a
    · have hnone : part.filter p = [] :=
        filter_eq_nil_iff.mpr fun b hb => by simp [hpart b hb, hq]
      rw [filter_cons_of_neg (by simp [hq]), hnone, nil_append]
      exact hrest
    · have hall : part.filter p = part :=
        filter_eq_self.mpr fun b hb => (hpart b hb).trans hq
      rw [filter_cons_of_pos hq, hall]
      exact tryFlatMap_cons ha hrest

variable {g : α → Option (List β)}

/-- A filter moves into the lists of a concatenation. -/
theorem tryFlatMap_filter_parts {p : β → Bool}
    (hg : ∀ a ∈ l, ∀ part, f a = some part → g a = some (part.filter p)) :
    tryFlatMap g l = some (bs.filter p) := by
  induction l generalizing bs with
  | nil =>
    cases h
    rfl
  | cons a l ih =>
    obtain ⟨part, rest, ha, hl, rfl⟩ := tryFlatMap_cons_eq_some.mp h
    obtain ⟨hhead, htail⟩ := forall_mem_cons.mp hg
    rw [filter_append]
    exact tryFlatMap_cons (hhead part ha) (ih hl htail)

end

theorem tryFlatMap_cons_bind (f : α → Option (List β)) (a : α) (l : List α) :
    tryFlatMap f (a :: l) =
      (f a).bind fun part => (tryFlatMap f l).bind fun rest => some (part ++ rest) := by
  refine ext fun bs => ?_
  rw [tryFlatMap_cons_eq_some, bind_eq_some_iff]
  refine exists_congr fun part => ?_
  rw [bind_eq_some_iff]
  constructor
  · rintro ⟨rest, hpart, hrest, rfl⟩
    exact ⟨hpart, rest, hrest, rfl⟩
  · rintro ⟨hpart, rest, hrest, hbs⟩
    exact ⟨rest, hpart, hrest, some.inj hbs⟩

/-! ## Relations between partial results -/

/-- The second result is the first one, unless the first one is an error. -/
def Below (α : Type) (x y : Option α) : Prop := ∀ a, x = some a → y = some a

theorem Below.eq {x y : Option α} (h : Below α x y) (hsome : y.isSome = true → x.isSome = true) :
    x = y := by
  cases hx : x with
  | some a => exact (h a hx).symm
  | none =>
    cases hy : y with
    | none => rfl
    | some b =>
      rw [hx, hy] at hsome
      cases hsome rfl

/-- A relation between partial results that sequencing respects. -/
structure BindRelation (R : (α : Type) → Option α → Option α → Prop) : Prop where
  refl : ∀ {α : Type} (x : Option α), R α x x
  trans : ∀ {α : Type} {x y z : Option α}, R α x y → R α y z → R α x z
  bind : ∀ {α β : Type} {x y : Option α} {f g : α → Option β}, R α x y →
    (∀ a, x = some a → R β (f a) (g a)) → R β (x.bind f) (y.bind g)

theorem bindRelation_eq : BindRelation fun _ x y => x = y where
  refl _ := rfl
  trans := Eq.trans
  bind := by
    rintro α β x y f g rfl hfg
    cases x with
    | none => rfl
    | some a => exact hfg a rfl

theorem bindRelation_below : BindRelation Below where
  refl _ _ h := h
  trans hxy hyz a ha := hyz a (hxy a ha)
  bind := by
    intro α β x y f g hxy hfg b hb
    obtain ⟨a, ha, hb⟩ := bind_eq_some_iff.mp hb
    exact bind_eq_some_iff.mpr ⟨a, hxy a ha, hfg a ha b hb⟩

theorem BindRelation.tryFlatMap {R : (α : Type) → Option α → Option α → Prop}
    (hR : BindRelation R) (h : ∀ a ∈ l, R (List β) (f a) (g a)) :
    R (List β) (Lib.tryFlatMap f l) (Lib.tryFlatMap g l) := by
  induction l with
  | nil => exact hR.refl _
  | cons a l ih =>
    obtain ⟨ha, hl⟩ := forall_mem_cons.mp h
    rw [tryFlatMap_cons_bind, tryFlatMap_cons_bind]
    exact hR.bind ha fun part _ => hR.bind (ih hl) fun rest _ => hR.refl _

end RustDb.Lib
