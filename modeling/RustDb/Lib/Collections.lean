import Std.Data.ExtTreeMap
import Std.Data.ExtTreeSet
import Mathlib.Algebra.Order.Field.Rat
import Mathlib.Data.List.Forall2

/-!
# Ordered maps and checks over lists

Facts about `Std.ExtTreeMap`, `Std.ExtTreeSet` and about running a fallible
check over a list.

* `forM_eq_ok`: a check over a list succeeds exactly when it succeeds on every
  element.
* `mem_iff_exists_getElem?`: a key is present exactly when it is bound.
-/

namespace RustDb.Lib

open Std List Option ExtTreeMap

/-! ## Fallible checks -/

variable {α β : Type} {l : List α} {bs : List β} {R : α → β → Prop} {ε : Type}

/-- A sequence of two computations succeeds when both do. -/
@[simp] theorem bind_eq_ok {x : Except ε α} {f : α → Except ε β} {b : β} :
    x >>= f = .ok b ↔ ∃ a, x = .ok a ∧ f a = .ok b := by
  cases x <;> simp [bind, Except.bind]

@[simp] theorem map_eq_ok {x : Except ε α} {f : α → β} {b : β} :
    f <$> x = .ok b ↔ ∃ a, x = .ok a ∧ f a = b := by
  cases x <;> simp [Functor.map, Except.map]

theorem isSome_bind {x : Option α} {f : α → Option β} (hx : x.isSome = true)
    (hf : ∀ a, x = some a → (f a).isSome = true) : (x.bind f).isSome = true := by
  obtain ⟨a, rfl⟩ := isSome_iff_exists.mp hx
  exact hf a rfl

/-- `bind_eq_ok` for a first computation that is only a check. -/
theorem check_bind_eq_ok {x : Except ε Unit} {f : Except ε β} {b : β} :
    (x >>= fun _ => f) = .ok b ↔ x = .ok () ∧ f = .ok b := by
  cases x <;> simp [bind, Except.bind]

variable {u : Unit}

/-- A check over a list succeeds exactly when it succeeds on every element. -/
theorem forM_eq_ok {f : α → Except ε Unit} : forM l f = .ok u ↔ ∀ x ∈ l, f x = .ok () := by
  induction l with
  | nil => simp [pure, Except.pure]
  | cons x l ih =>
    rw [forM_cons, check_bind_eq_ok, forall_mem_cons, ← ih]

/-- Mapping a computation over a list succeeds when it does on every element. -/
theorem mapM_eq_ok {f : α → Except ε β} :
    l.mapM f = .ok bs ↔ List.Forall₂ (fun a b => f a = .ok b) l bs := by
  induction l generalizing bs with
  | nil =>
    rw [mapM_nil, forall₂_nil_left_iff]
    simp [pure, Except.pure, eq_comm]
  | cons a l ih =>
    rw [mapM_cons, bind_eq_ok, forall₂_cons_left_iff]
    constructor
    · rintro ⟨b, hb, h⟩
      obtain ⟨bs', hbs, h⟩ := bind_eq_ok.mp h
      cases h
      exact ⟨b, bs', hb, ih.mp hbs, rfl⟩
    · rintro ⟨b, bs', hb, hbs, rfl⟩
      exact ⟨b, hb, bind_eq_ok.mpr ⟨bs', ih.mpr hbs, rfl⟩⟩

theorem exists_mapM_eq_ok {f : α → Except ε β} (h : ∀ a ∈ l, ∃ b, f a = .ok b) :
    ∃ bs, l.mapM f = .ok bs := by
  induction l with
  | nil => exact ⟨[], rfl⟩
  | cons a l ih =>
    obtain ⟨b, hb⟩ := h a (mem_cons_self ..)
    obtain ⟨bs, hbs⟩ := ih fun x hx => h x (mem_cons_of_mem _ hx)
    refine ⟨b :: bs, ?_⟩
    rw [mapM_cons, hb, hbs]
    rfl

theorem forall₂_imp_of_mem {S : α → β → Prop}
    (h : List.Forall₂ R l bs) (himp : ∀ a ∈ l, ∀ b, R a b → S a b) :
    List.Forall₂ S l bs := by
  induction h with
  | nil => exact .nil
  | cons hab _ ih =>
    refine .cons (himp _ (mem_cons_self ..) _ hab) ?_
    exact ih fun a ha => himp a (mem_cons_of_mem _ ha)

theorem exists_mem_of_forall₂ (h : List.Forall₂ R l bs) {b : β} (hb : b ∈ bs) : ∃ a ∈ l, R a b := by
  induction h with
  | nil => cases hb
  | cons hab _ ih =>
    obtain rfl | hb := mem_cons.mp hb
    · exact ⟨_, mem_cons_self, hab⟩
    · obtain ⟨a, ha, hab⟩ := ih hb
      exact ⟨a, mem_cons_of_mem _ ha, hab⟩

/-- Each element of the first list has its partner. -/
theorem exists_mem_zip_of_forall₂ (h : List.Forall₂ R l bs) {a : α} (ha : a ∈ l) :
    ∃ b, (a, b) ∈ l.zip bs ∧ R a b := by
  induction h with
  | nil => cases ha
  | cons hab _ ih =>
    rcases mem_cons.mp ha with rfl | ha
    · exact ⟨_, mem_cons_self .., hab⟩
    · obtain ⟨b, hmem, hb⟩ := ih ha
      exact ⟨b, mem_cons_of_mem _ hmem, hb⟩

/-- Fails with `e` when `c` holds: the `if c { return Err(e) }` of the code. -/
def rejectIf {ε : Type} (c : Prop) [Decidable c] (e : ε) : Except ε Unit :=
  if c then .error e else .ok ()

@[simp] theorem rejectIf_eq_ok {c : Prop} [Decidable c] {e : ε} : rejectIf c e = .ok u ↔ ¬ c := by
  unfold rejectIf
  split <;> simp_all

/-! ## Chunks of a list -/

/-- The first `count` chunks of a list. -/
def chunks {α : Type} (size : Nat) : Nat → List α → List (List α)
  | 0, _ => []
  | count + 1, xs => xs.take size :: chunks size count (xs.drop size)

/-- The full chunks of a list. -/
def chunksExact {α : Type} (size : Nat) (xs : List α) : List (List α) :=
  chunks size (xs.length / size) xs

theorem length_chunks (size count : Nat) (xs : List α) :
    (chunks size count xs).length = count := by
  induction count generalizing xs with
  | zero => rfl
  | succ count ih => rw [chunks, length_cons, ih]

variable {size count : Nat} {xs : List α}

theorem getElem?_chunks {i : Nat} (h : i < count) :
    (chunks size count xs)[i]? = some ((xs.drop (i * size)).take size) := by
  induction count generalizing xs i with
  | zero => cases h
  | succ count ih =>
    cases i with
    | zero => rw [chunks, getElem?_cons_zero, zero_mul, drop_zero]
    | succ i =>
      rw [chunks, getElem?_cons_succ, ih (Nat.lt_of_succ_lt_succ h), drop_drop,
        Nat.succ_mul, add_comm]

theorem length_of_mem_chunks {chunk : List α} (h : count * size ≤ xs.length)
    (hchunk : chunk ∈ chunks size count xs) : chunk.length = size := by
  induction count generalizing xs with
  | zero => cases hchunk
  | succ count ih =>
    rw [Nat.succ_mul] at h
    rcases mem_cons.mp hchunk with rfl | hchunk
    · rw [length_take]
      omega
    · refine ih ?_ hchunk
      rw [length_drop]
      omega

theorem flatten_chunks (size count : Nat) (xs : List α) :
    (chunks size count xs).flatten = xs.take (count * size) := by
  induction count generalizing xs with
  | zero => rw [zero_mul, take_zero]; rfl
  | succ count ih =>
    rw [chunks, flatten_cons, ih, Nat.succ_mul, add_comm, take_add]

theorem chunks_map (f : α → β) (size count : Nat) (xs : List α) :
    chunks size count (xs.map f) = (chunks size count xs).map (List.map f) := by
  induction count generalizing xs with
  | zero => rfl
  | succ count ih =>
    rw [chunks, chunks, map_cons, ← map_take, ← map_drop, ih]

/-- The chunks of a concatenation of pieces of one size. -/
theorem chunks_flatMap {f : β → List α} (hf : ∀ b, (f b).length = size) (bs : List β)
    (rest : List α) : chunks size bs.length (bs.flatMap f ++ rest) = bs.map f := by
  induction bs with
  | nil => rfl
  | cons b bs ih =>
    rw [length_cons, chunks, flatMap_cons, append_assoc,
      take_left' (hf b), drop_left' (hf b), ih, map_cons]

/-! ## Partial maps over a list -/

theorem mapM_eq_some {f : α → Option β} :
    l.mapM f = some bs ↔ List.Forall₂ (fun a b => f a = some b) l bs := by
  induction l generalizing bs with
  | nil =>
    rw [mapM_nil, forall₂_nil_left_iff]
    simp [eq_comm]
  | cons a l ih =>
    rw [mapM_cons, forall₂_cons_left_iff]
    constructor
    · intro h
      simp only [bind_eq_bind, bind_eq_some_iff] at h
      obtain ⟨b, hb, bs', hbs, h⟩ := h
      cases h
      exact ⟨b, bs', hb, ih.mp hbs, rfl⟩
    · rintro ⟨b, bs', hb, hbs, rfl⟩
      rw [hb, ih.mpr hbs]
      rfl

variable {γ : Type}

/-- Functions that agree on related elements map related lists to one list. -/
theorem map_eq_map_of_forall₂ {f : α → γ} {g : β → γ} (h : List.Forall₂ R l bs)
    (hfg : ∀ a b, R a b → f a = g b) : l.map f = bs.map g := by
  induction h with
  | nil => rfl
  | cons hab _ ih => rw [map_cons, map_cons, hfg _ _ hab, ih]

/-- A partial map that takes each element of one list back to its partner. -/
theorem mapM_zipIdx_eq_some {g : β × Nat → Option α}
    (h : List.Forall₂ R l bs)
    (hg : ∀ i a b, l[i]? = some a → R a b → g (b, i) = some a) :
    bs.zipIdx.mapM g = some l := by
  suffices haux : ∀ k, (∀ i a b, l[i]? = some a → R a b → g (b, k + i) = some a) →
      (bs.zipIdx k).mapM g = some l from
    haux 0 fun i a b hi hab => by
      rw [zero_add]
      exact hg i a b hi hab
  clear hg
  induction h with
  | nil => exact fun _ _ => rfl
  | cons hab _ ih =>
    intro k hg
    have hhead := hg 0 _ _ rfl hab
    have htail := ih (k + 1) fun i a b hi hab => by
      rw [add_assoc, add_comm 1 i]
      exact hg (i + 1) a b hi hab
    rw [zipIdx_cons, mapM_cons, htail]
    rw [add_zero] at hhead
    rw [hhead]
    rfl

/-- Two passes over an enumerated list are one pass. -/
theorem mapM_zipIdx_bind {f : α × Nat → Option β} {g : β × Nat → Option γ} (k : Nat) :
    (((l.zipIdx k).mapM f).bind fun ys => (ys.zipIdx k).mapM g) =
      (l.zipIdx k).mapM fun p => (f p).bind fun y => g (y, p.2) := by
  induction l generalizing k with
  | nil => rfl
  | cons a l ih =>
    rw [zipIdx_cons, mapM_cons, mapM_cons, ← ih]
    cases f (a, k) with
    | none => rfl
    | some b =>
      cases hl : (l.zipIdx (k + 1)).mapM f with
      | none =>
        show none = (g (b, k)).bind fun _ => none
        cases g (b, k) <;> rfl
      | some ys =>
        show ((b :: ys).zipIdx k).mapM g = _
        rw [zipIdx_cons, mapM_cons]
        rfl

/-! ## Association lists -/

section Lookup

variable {κ α : Type} [BEq κ] [LawfulBEq κ] {l : List (κ × α)} {k : κ}

theorem lookup_eq_none : l.lookup k = none ↔ k ∉ l.map Prod.fst := by
  rw [List.lookup_eq_none_iff, List.mem_map, not_exists]
  refine forall_congr' fun p => ?_
  rw [not_and, bne_iff_ne]
  exact imp_congr_right fun _ => ⟨fun h heq => h heq.symm, fun h heq => h heq.symm⟩

/-- With distinct keys every entry is the one that is found. -/
theorem lookup_eq_some (hnodup : (l.map Prod.fst).Nodup) {v : α} :
    l.lookup k = some v ↔ (k, v) ∈ l := by
  rw [lookup_eq_some_iff]
  constructor
  · rintro ⟨l₁, l₂, rfl, -⟩
    exact mem_append_right _ (mem_cons_self ..)
  · intro hmem
    obtain ⟨l₁, l₂, rfl⟩ := append_of_mem hmem
    refine ⟨l₁, l₂, rfl, fun p hp => bne_iff_ne.mpr fun heq => ?_⟩
    rw [map_append, nodup_append] at hnodup
    exact hnodup.2.2 p.1 (mem_map_of_mem hp) k (mem_map_of_mem (mem_cons_self ..)) heq.symm

end Lookup

/-! ## Ordered maps -/

section Maps

variable {κ α : Type} {cmp : κ → κ → Ordering} [TransCmp cmp] {m : ExtTreeMap κ α cmp} {k : κ}

/-- A key is present exactly when it is bound to a value. -/
theorem mem_iff_exists_getElem? : k ∈ m ↔ ∃ v, m[k]? = some v := by
  rw [mem_iff_isSome_getElem?, isSome_iff_exists]

theorem getElem?_insert_eq_some [LawfulEqCmp cmp] {a : κ} {v w : α} :
    (m.insert k v)[a]? = some w ↔ (k = a ∧ v = w) ∨ (k ≠ a ∧ m[a]? = some w) := by
  rw [ExtTreeMap.getElem?_insert]
  split
  · next heq => simp [LawfulEqCmp.eq_of_compare heq]
  · next hne =>
    have hne : k ≠ a := fun heq => hne (heq ▸ ReflCmp.compare_self)
    simp [hne]

/-- A key is absent exactly when it has no value. -/
theorem notMem_iff_getElem? : k ∉ m ↔ m[k]? = none := by
  rw [mem_iff_isSome_getElem?, Bool.not_eq_true, isSome_eq_false_iff, isNone_iff_eq_none]

/-- Inserting the entries of an association list with distinct keys. -/
theorem getElem?_foldl_insert_entries [LawfulEqCmp cmp] [DecidableEq κ]
    {l : List (κ × β)} (hnodup : (l.map Prod.fst).Nodup) {f : β → α} :
    (l.foldl (fun m entry => m.insert entry.1 (f entry.2)) m)[k]? =
      ((l.lookup k).map f).or m[k]? := by
  induction l generalizing m with
  | nil => rfl
  | cons entry l ih =>
    obtain ⟨key, b⟩ := entry
    rw [map_cons, nodup_cons] at hnodup
    rw [foldl_cons, ih hnodup.2, ExtTreeMap.getElem?_insert, lookup_cons]
    by_cases hkey : k = key
    · subst hkey
      rw [lookup_eq_none.mpr hnodup.1]
      simp
    · rw [beq_false_of_ne hkey]
      simp [Ne.symm hkey]

/-- Inserting the entries of a map one after the other builds the map again. -/
theorem foldl_insert_toList [LawfulEqCmp cmp] [DecidableEq κ] (m : ExtTreeMap κ α cmp) :
    m.toList.foldl (fun m entry => m.insert entry.1 entry.2) ∅ = m := by
  have hnodup : (m.toList.map Prod.fst).Nodup := by
    rw [map_fst_toList_eq_keys]
    exact nodup_keys
  refine ext_getElem? fun k => ?_
  have hfold := getElem?_foldl_insert_entries hnodup (f := id)
    (m := (∅ : ExtTreeMap κ α cmp)) (k := k)
  rw [getElem?_empty, Option.or_none, Option.map_id, id] at hfold
  refine hfold.trans (Option.ext fun v => ?_)
  rw [lookup_eq_some hnodup, mem_toList_iff_getElem?_eq_some]

end Maps

/-! ## Maps as ordered lists -/

section Ordered

variable {κ α : Type} {cmp : κ → κ → Ordering} [TransCmp cmp] [LawfulEqCmp cmp]

/-- Two lists in strictly increasing order of the keys with the same members are equal. -/
theorem eq_of_ordered_of_mem {l l' : List (κ × α)}
    (hl : l.Pairwise fun a b => cmp a.1 b.1 = .lt)
    (hl' : l'.Pairwise fun a b => cmp a.1 b.1 = .lt) (hmem : ∀ p, p ∈ l ↔ p ∈ l') :
    l = l' := by
  have hirrefl : ∀ a b : κ × α, cmp a.1 b.1 = .lt → a ≠ b := by
    rintro a b hlt rfl
    have hself : cmp a.1 a.1 = .eq := ReflCmp.compare_self
    rw [hself] at hlt
    cases hlt
  refine List.Perm.eq_of_pairwise ?_ hl hl' ?_
  · intro a b _ _ hab hba
    have hgt := OrientedCmp.gt_iff_lt.mpr hba
    rw [hab] at hgt
    cases hgt
  · rw [perm_ext_iff_of_nodup (hl.imp (hirrefl _ _)) (hl'.imp (hirrefl _ _))]
    exact hmem

/-- A key above all others is the last one. -/
theorem toList_insert_of_lt {m : ExtTreeMap κ α cmp} {k : κ} {v : α}
    (h : ∀ p ∈ m.toList, cmp p.1 k = .lt) :
    (m.insert k v).toList = m.toList ++ [(k, v)] := by
  refine eq_of_ordered_of_mem ordered_keys_toList ?_ ?_
  · refine pairwise_append.mpr ⟨ordered_keys_toList, pairwise_singleton .., ?_⟩
    intro a ha b hb
    rw [mem_singleton.mp hb]
    exact h a ha
  · rintro ⟨k', v'⟩
    rw [ExtTreeMap.mem_toList_iff_getElem?_eq_some, ExtTreeMap.getElem?_insert,
      mem_append, mem_toList_iff_getElem?_eq_some, mem_singleton,
      Prod.mk.injEq]
    split_ifs with heq
    · have hk := LawfulEqCmp.eq_of_compare heq
      subst hk
      constructor
      · intro hv
        exact .inr ⟨rfl, (some.inj hv).symm⟩
      · rintro (hold | ⟨-, rfl⟩)
        · have hlt := h _ (mem_toList_iff_getElem?_eq_some.mpr hold)
          rw [heq] at hlt
          cases hlt
        · rfl
    · refine ⟨.inl, ?_⟩
      rintro (hold | ⟨rfl, -⟩)
      · exact hold
      · exact (heq ReflCmp.compare_self).elim

end Ordered

end RustDb.Lib
