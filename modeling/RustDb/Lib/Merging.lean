import Mathlib.Algebra.Order.BigOperators.Group.List
import RustDb.Lib.Collections

/-!
# Aggregation by updates and merges

An aggregate is computed from partial states: a state takes inputs one by one, and takes over
what another state has seen.  Any of these steps may fail.

* `Evaluation`: the ways to aggregate some inputs, and `Evaluation.run`.
* `Evaluation.run_sound`, `Evaluation.exists_run`: what every way keeps, and when it cannot
  fail.
* `Steady lo hi`: sums that stay in a range at every prefix.  Sums in one order may leave
  the range when sums in another order do not (`exists_steady`, `exists_not_steady`).
* `CheckedSum.agree_iff`: when all evaluations of a sum that fails outside a range end alike.
* `Choosing.agree_iff`: when all evaluations of a minimum end alike.
-/

namespace RustDb.Lib

open List

variable {α σ ε : Type}

/-! ## Evaluations -/

/-- A way to aggregate inputs. -/
inductive Evaluation (α : Type) where
  | new
  | update (state : Evaluation α) (input : α)
  | merge (state other : Evaluation α)

/-- A partial state, its updates and its merges. -/
structure Aggregator (α σ ε : Type) where
  new : σ
  update : σ → α → Except ε σ
  merge : σ → σ → Except ε σ

namespace Evaluation

/-- The inputs of an evaluation, in the order that its merges put them in. -/
def inputs : Evaluation α → List α
  | new => []
  | update state input => input :: state.inputs
  | merge state other => state.inputs ++ other.inputs

/-- The state that an evaluation gives: updates and merges in any tree, with the first error. -/
def run (A : Aggregator α σ ε) : Evaluation α → Except ε σ
  | new => .ok A.new
  | update state input => do
    let s ← state.run A
    A.update s input
  | merge state other => do
    let s ← state.run A
    let t ← other.run A
    A.merge s t

/-- The inputs one by one. -/
def ofList (inputs : List α) : Evaluation α := inputs.foldl update new

theorem inputs_foldl (inputs : List α) (state : Evaluation α) :
    (inputs.foldl update state).inputs = inputs.reverse ++ state.inputs := by
  induction inputs generalizing state with
  | nil => rfl
  | cons input inputs ih =>
    rw [foldl_cons, ih, Evaluation.inputs, reverse_cons, append_assoc]
    rfl

theorem inputs_ofList (inputs : List α) : (ofList inputs).inputs.Perm inputs := by
  rw [ofList, inputs_foldl]
  simp [Evaluation.inputs]

theorem run_foldl (A : Aggregator α σ ε) (inputs : List α) (state : Evaluation α) :
    (inputs.foldl update state).run A = (state.run A >>= fun s => inputs.foldlM A.update s) := by
  induction inputs generalizing state with
  | nil =>
    simp only [foldl_nil, foldlM_nil]
    cases state.run A <;> rfl
  | cons input inputs ih =>
    rw [foldl_cons, ih, run]
    cases state.run A with
    | error e => rfl
    | ok s => rfl

theorem run_ofList (A : Aggregator α σ ε) (inputs : List α) :
    (ofList inputs).run A = inputs.foldlM A.update A.new :=
  run_foldl A inputs new

variable {A : Aggregator α σ ε} {R : List α → σ → Prop} {P : List α → Prop}

section

variable (hcons : ∀ input inputs, P (input :: inputs) → P inputs)
  (happend : ∀ inputs inputs', P (inputs ++ inputs') → P inputs ∧ P inputs')
  (hnew : R [] A.new)
include hcons happend hnew

/-- What the state of every evaluation says about its inputs, where `P` holds of all parts of
the inputs. -/
theorem run_sound (hupdate : ∀ inputs s input s', R inputs s → P (input :: inputs) →
      A.update s input = .ok s' → R (input :: inputs) s')
    (hmerge : ∀ inputs s inputs' t s', R inputs s → R inputs' t → P (inputs ++ inputs') →
      A.merge s t = .ok s' → R (inputs ++ inputs') s') {e : Evaluation α} (hP : P e.inputs)
    {s : σ} (h : e.run A = .ok s) : R e.inputs s := by
  induction e generalizing s with
  | new =>
    cases h
    exact hnew
  | update state input ih =>
    obtain ⟨t, ht, hstep⟩ := bind_eq_ok.mp h
    exact hupdate _ _ _ _ (ih (hcons _ _ hP) ht) hP hstep
  | merge state other ih ih' =>
    obtain ⟨t, ht, hrest⟩ := bind_eq_ok.mp h
    obtain ⟨u, hu, hstep⟩ := bind_eq_ok.mp hrest
    obtain ⟨hleft, hright⟩ := happend _ _ hP
    exact hmerge _ _ _ _ _ (ih hleft ht) (ih' hright hu) hP hstep

/-- When no part of the inputs can make a step fail, every evaluation has a state. -/
theorem exists_run (hupdate : ∀ inputs s input, R inputs s → P (input :: inputs) →
      ∃ s', A.update s input = .ok s' ∧ R (input :: inputs) s')
    (hmerge : ∀ inputs s inputs' t, R inputs s → R inputs' t → P (inputs ++ inputs') →
      ∃ s', A.merge s t = .ok s' ∧ R (inputs ++ inputs') s') (e : Evaluation α) (h : P e.inputs) :
    ∃ s, e.run A = .ok s ∧ R e.inputs s := by
  induction e with
  | new => exact ⟨A.new, rfl, hnew⟩
  | update state input ih =>
    obtain ⟨s, hs, hR⟩ := ih (hcons input _ h)
    obtain ⟨s', hs', hR'⟩ := hupdate _ s input hR h
    exact ⟨s', bind_eq_ok.mpr ⟨s, hs, hs'⟩, hR'⟩
  | merge state other ih ih' =>
    obtain ⟨hleft, hright⟩ := happend _ _ h
    obtain ⟨s, hs, hR⟩ := ih hleft
    obtain ⟨t, ht, hR'⟩ := ih' hright
    obtain ⟨s', hs', hR''⟩ := hmerge _ s _ t hR hR' h
    exact ⟨s', bind_eq_ok.mpr ⟨s, hs, bind_eq_ok.mpr ⟨t, ht, hs'⟩⟩, hR''⟩

end

end Evaluation

/-! ## Sums that stay in a range -/

section

variable (weight : α → Int)

/-- The sum of the weights. -/
def total (inputs : List α) : Int := (inputs.map weight).sum

/-- The sum of the weights that are not negative. -/
def positiveTotal (inputs : List α) : Int := (inputs.map fun a => max (weight a) 0).sum

/-- The sum of the weights that are not positive. -/
def negativeTotal (inputs : List α) : Int := (inputs.map fun a => min (weight a) 0).sum

/-- Every prefix sum, from `start`, is in the range. -/
def Steady (lo hi : Int) : Int → List α → Prop
  | _, [] => True
  | start, a :: inputs =>
    (lo ≤ start + weight a ∧ start + weight a ≤ hi) ∧ Steady lo hi (start + weight a) inputs

variable {weight} {lo hi : Int}

theorem total_cons (a : α) (inputs : List α) :
    total weight (a :: inputs) = weight a + total weight inputs := by
  simp [total]

theorem total_append (inputs inputs' : List α) :
    total weight (inputs ++ inputs') = total weight inputs + total weight inputs' := by
  simp [total]

variable {inputs inputs' : List α}

theorem total_perm (h : inputs.Perm inputs') : total weight inputs = total weight inputs' :=
  (h.map weight).sum_eq

theorem positiveTotal_perm (h : inputs.Perm inputs') :
    positiveTotal weight inputs = positiveTotal weight inputs' :=
  (h.map _).sum_eq

theorem negativeTotal_perm (h : inputs.Perm inputs') :
    negativeTotal weight inputs = negativeTotal weight inputs' :=
  (h.map _).sum_eq

section

variable (weight : α → Int) (inputs : List α)

theorem positiveTotal_nonneg : 0 ≤ positiveTotal weight inputs := by
  apply sum_nonneg
  intro x hx
  obtain ⟨a, -, rfl⟩ := mem_map.mp hx
  exact le_max_right _ _

theorem negativeTotal_nonpos : negativeTotal weight inputs ≤ 0 := by
  induction inputs with
  | nil => exact le_refl _
  | cons a inputs ih =>
    simp only [negativeTotal, map_cons, sum_cons] at ih ⊢
    omega

theorem total_eq :
    total weight inputs = positiveTotal weight inputs + negativeTotal weight inputs := by
  induction inputs with
  | nil => rfl
  | cons a inputs ih =>
    simp only [total, positiveTotal, negativeTotal, map_cons, sum_cons] at ih ⊢
    omega

theorem total_le_positiveTotal : total weight inputs ≤ positiveTotal weight inputs := by
  have heq := total_eq weight inputs
  have hneg := negativeTotal_nonpos weight inputs
  omega

theorem negativeTotal_le_total : negativeTotal weight inputs ≤ total weight inputs := by
  have heq := total_eq weight inputs
  have hpos := positiveTotal_nonneg weight inputs
  omega

end

/-- The range holds the sums of all parts of the inputs. -/
def Bounded (weight : α → Int) (lo hi : Int) (inputs : List α) : Prop :=
  lo ≤ negativeTotal weight inputs ∧ positiveTotal weight inputs ≤ hi

instance (weight : α → Int) (lo hi : Int) (inputs : List α) :
    Decidable (Bounded weight lo hi inputs) :=
  inferInstanceAs (Decidable (_ ∧ _))

theorem Bounded.total (h : Bounded weight lo hi inputs) :
    lo ≤ total weight inputs ∧ total weight inputs ≤ hi := by
  have hle := total_le_positiveTotal weight inputs
  have hge := negativeTotal_le_total weight inputs
  exact ⟨Int.le_trans h.1 hge, Int.le_trans hle h.2⟩

theorem Bounded.append (h : Bounded weight lo hi (inputs ++ inputs')) :
    Bounded weight lo hi inputs ∧ Bounded weight lo hi inputs' := by
  have hpos := positiveTotal_nonneg weight inputs
  have hpos' := positiveTotal_nonneg weight inputs'
  have hneg := negativeTotal_nonpos weight inputs
  have hneg' := negativeTotal_nonpos weight inputs'
  obtain ⟨hlo, hhi⟩ := h
  simp only [Bounded, positiveTotal, negativeTotal, map_append, sum_append] at *
  omega

theorem Bounded.tail {a : α} (h : Bounded weight lo hi (a :: inputs)) :
    Bounded weight lo hi inputs :=
  (@Bounded.append _ _ _ _ [a] inputs h).2

theorem Bounded.perm (h : Bounded weight lo hi inputs) (hperm : inputs.Perm inputs') :
    Bounded weight lo hi inputs' := by
  rw [Bounded, ← negativeTotal_perm hperm, ← positiveTotal_perm hperm]
  exact h

variable {start : Int}

section

variable (hinputs : ∀ a ∈ inputs, lo ≤ weight a ∧ weight a ≤ hi)
  (hstart : lo ≤ start ∧ start ≤ hi)
  (htotal : lo ≤ start + total weight inputs ∧ start + total weight inputs ≤ hi)
include hinputs hstart htotal

/-- When the total is in the range, some input can be added next. -/
theorem exists_next (hne : inputs ≠ []) :
    ∃ a ∈ inputs, lo ≤ start + weight a ∧ start + weight a ≤ hi := by
  by_cases hsign : 0 ≤ start
  · by_cases hdown : ∃ a ∈ inputs, weight a ≤ 0
    · obtain ⟨a, hmem, hle⟩ := hdown
      have hrange := hinputs a hmem
      exact ⟨a, hmem, by omega⟩
    · -- only larger sums follow, and the last of them is in the range
      obtain ⟨a, rest, rfl⟩ := exists_cons_of_ne_nil hne
      have hrest : 0 ≤ total weight rest := by
        apply sum_nonneg
        intro x hx
        obtain ⟨b, hb, rfl⟩ := mem_map.mp hx
        by_contra hlt
        exact hdown ⟨b, mem_cons_of_mem a hb, by omega⟩
      have hfirst : 0 ≤ weight a := by
        by_contra hlt
        exact hdown ⟨a, mem_cons_self, by omega⟩
      rw [total_cons] at htotal
      exact ⟨a, mem_cons_self, by omega⟩
  · by_cases hup : ∃ a ∈ inputs, 0 ≤ weight a
    · obtain ⟨a, hmem, hle⟩ := hup
      have hrange := hinputs a hmem
      exact ⟨a, hmem, by omega⟩
    · obtain ⟨a, rest, rfl⟩ := exists_cons_of_ne_nil hne
      have hrest : total weight rest ≤ 0 := by
        have hnonpos : ∀ b ∈ rest, weight b ≤ 0 := by
          intro b hb
          by_contra hlt
          exact hup ⟨b, mem_cons_of_mem a hb, by omega⟩
        have heq : total weight rest = negativeTotal weight rest := by
          unfold total negativeTotal
          congr 1
          apply map_congr_left
          intro b hb
          exact (min_eq_left (hnonpos b hb)).symm
        rw [heq]
        exact negativeTotal_nonpos weight rest
      have hfirst : weight a ≤ 0 := by
        by_contra hlt
        exact hup ⟨a, mem_cons_self, by omega⟩
      rw [total_cons] at htotal
      exact ⟨a, mem_cons_self, by omega⟩

/-- When the total is in the range, the inputs can be added in some order. -/
theorem exists_steady : ∃ order, order.Perm inputs ∧ Steady weight lo hi start order := by
  induction hn : inputs.length generalizing inputs start with
  | zero =>
    rw [length_eq_zero_iff.mp hn]
    exact ⟨[], .refl _, trivial⟩
  | succ n ih =>
    have hne : inputs ≠ [] := by
      intro hnil
      rw [hnil] at hn
      cases hn
    obtain ⟨a, hmem, hnext⟩ := exists_next hinputs hstart htotal hne
    obtain ⟨before, after, rfl⟩ := append_of_mem hmem
    have hperm : (before ++ a :: after).Perm (a :: (before ++ after)) := perm_middle
    have hsum : total weight (before ++ a :: after) =
        weight a + total weight (before ++ after) := by
      rw [total_perm hperm, total_cons]
    rw [hsum] at htotal
    obtain ⟨order, horder, hsteady⟩ := @ih (before ++ after) (start + weight a)
      (fun b hb => hinputs b (hperm.mem_iff.mpr (mem_cons_of_mem a hb))) hnext
      (by omega) (by
        simp only [length_append, length_cons] at hn ⊢
        omega)
    exact ⟨a :: order, (horder.cons a).trans hperm.symm, hnext, hsteady⟩

end

variable {order : List α}

theorem Steady.append {order' : List α} (h : Steady weight lo hi start (order ++ order')) :
    Steady weight lo hi start order := by
  induction order generalizing start with
  | nil => trivial
  | cons a order ih => exact ⟨h.1, ih h.2⟩

theorem Steady.total (h : Steady weight lo hi start order) (hstart : lo ≤ start ∧ start ≤ hi) :
    lo ≤ start + Lib.total weight order ∧ start + Lib.total weight order ≤ hi := by
  induction order generalizing start with
  | nil => simpa [Lib.total] using hstart
  | cons a order ih =>
    have hrest := ih h.2 h.1
    rw [total_cons]
    omega

theorem total_filter_nonneg (inputs : List α) :
    total weight (inputs.filter fun a => decide (0 ≤ weight a)) =
      positiveTotal weight inputs := by
  induction inputs with
  | nil => rfl
  | cons a inputs ih =>
    simp only [total, positiveTotal] at ih ⊢
    by_cases ha : 0 ≤ weight a
    · simp [ha, ih]
    · have hle : weight a ≤ 0 := by omega
      simp [ha, ih, max_eq_right hle]

theorem total_filter_neg (inputs : List α) :
    total weight (inputs.filter fun a => !decide (0 ≤ weight a)) =
      negativeTotal weight inputs := by
  induction inputs with
  | nil => rfl
  | cons a inputs ih =>
    simp only [total, negativeTotal] at ih ⊢
    by_cases ha : 0 ≤ weight a
    · simp [ha, ih]
    · have hle : weight a ≤ 0 := by omega
      simp [ha, ih, min_eq_left hle]

/-- When the range does not hold the sums of all parts, some order leaves it. -/
theorem exists_not_steady (hzero : lo ≤ 0 ∧ 0 ≤ hi)
    (h : ¬ Bounded weight lo hi inputs) :
    ∃ order, order.Perm inputs ∧ ¬ Steady weight lo hi 0 order := by
  have hsplit := filter_append_perm (fun a => decide (0 ≤ weight a)) inputs
  by_cases hhigh : positiveTotal weight inputs ≤ hi
  · refine ⟨_, perm_append_comm.trans hsplit, fun hsteady => h ⟨?_, hhigh⟩⟩
    have hbound := hsteady.append.total hzero
    rw [total_filter_neg] at hbound
    omega
  · refine ⟨_, hsplit, fun hsteady => hhigh ?_⟩
    have hbound := hsteady.append.total hzero
    rw [total_filter_nonneg] at hbound
    omega

end

/-! ## Checked sums -/

/-- The states of `A` are sums that fail when they leave a range, and a flag that is set by
the inputs that count. -/
structure CheckedSum (A : Aggregator α σ ε) (good : α → Prop) (weight : α → Int)
    (flag : α → Bool) (lo hi : Int) (mk : Int → Bool → σ) : Prop where
  zero : lo ≤ 0 ∧ 0 ≤ hi
  range : ∀ a, good a → lo ≤ weight a ∧ weight a ≤ hi
  new : A.new = mk 0 false
  update_ok : ∀ v b a, good a → lo ≤ v ∧ v ≤ hi →
    lo ≤ v + weight a ∧ v + weight a ≤ hi →
    A.update (mk v b) a = .ok (mk (v + weight a) (b || flag a))
  update_error : ∀ v b a, good a → lo ≤ v ∧ v ≤ hi →
    ¬ (lo ≤ v + weight a ∧ v + weight a ≤ hi) → ∃ e, A.update (mk v b) a = .error e
  merge_ok : ∀ v b w c, lo ≤ v ∧ v ≤ hi → lo ≤ w ∧ w ≤ hi → lo ≤ v + w ∧ v + w ≤ hi →
    A.merge (mk v b) (mk w c) = .ok (mk (v + w) (b || c))
  merge_error : ∀ v b w c, lo ≤ v ∧ v ≤ hi → lo ≤ w ∧ w ≤ hi →
    ¬ (lo ≤ v + w ∧ v + w ≤ hi) → ∃ e, A.merge (mk v b) (mk w c) = .error e

namespace CheckedSum

variable {A : Aggregator α σ ε} {good : α → Prop} {weight : α → Int} {flag : α → Bool}
  {lo hi : Int} {mk : Int → Bool → σ}

/-- A sum whose updates and merges fail exactly outside of the range. -/
theorem of_guarded (hzero : lo ≤ 0 ∧ 0 ≤ hi)
    (hrange : ∀ a, good a → lo ≤ weight a ∧ weight a ≤ hi) (hnew : A.new = mk 0 false)
    (hupdate : ∀ v b a, good a → lo ≤ v ∧ v ≤ hi → ∃ e, A.update (mk v b) a =
      if lo ≤ v + weight a ∧ v + weight a ≤ hi then .ok (mk (v + weight a) (b || flag a))
      else .error e)
    (hmerge : ∀ v b w c, lo ≤ v ∧ v ≤ hi → lo ≤ w ∧ w ≤ hi → ∃ e, A.merge (mk v b) (mk w c) =
      if lo ≤ v + w ∧ v + w ≤ hi then .ok (mk (v + w) (b || c)) else .error e) :
    CheckedSum A good weight flag lo hi mk where
  zero := hzero
  range := hrange
  new := hnew
  update_ok := by
    intro v b a ha hv hin
    obtain ⟨e, he⟩ := hupdate v b a ha hv
    rw [he, if_pos hin]
  update_error := by
    intro v b a ha hv hout
    obtain ⟨e, he⟩ := hupdate v b a ha hv
    exact ⟨e, he.trans (if_neg hout)⟩
  merge_ok := by
    intro v b w c hv hw hin
    obtain ⟨e, he⟩ := hmerge v b w c hv hw
    rw [he, if_pos hin]
  merge_error := by
    intro v b w c hv hw hout
    obtain ⟨e, he⟩ := hmerge v b w c hv hw
    exact ⟨e, he.trans (if_neg hout)⟩

/-- The state of some inputs. -/
def State (weight : α → Int) (flag : α → Bool) (lo hi : Int) (mk : Int → Bool → σ)
    (inputs : List α) (s : σ) : Prop :=
  s = mk (total weight inputs) (inputs.any flag) ∧
    lo ≤ total weight inputs ∧ total weight inputs ≤ hi

section

variable (h : CheckedSum A good weight flag lo hi mk)
include h

theorem state_nil : State weight flag lo hi mk [] A.new :=
  ⟨h.new, h.zero⟩

variable {inputs : List α} {s : σ}

theorem state_update {a : α} (hs : State weight flag lo hi mk inputs s) (ha : good a)
    (hrange : lo ≤ total weight (a :: inputs) ∧ total weight (a :: inputs) ≤ hi) :
    ∃ s', A.update s a = .ok s' ∧ State weight flag lo hi mk (a :: inputs) s' := by
  obtain ⟨rfl, hin⟩ := hs
  have hsum : total weight (a :: inputs) = total weight inputs + weight a := by
    rw [total_cons, Int.add_comm]
  refine ⟨_, h.update_ok _ _ a ha hin (hsum ▸ hrange), ?_, hrange⟩
  rw [hsum, any_cons, Bool.or_comm]

theorem state_merge {inputs' : List α} {t : σ} (hs : State weight flag lo hi mk inputs s)
    (ht : State weight flag lo hi mk inputs' t)
    (hrange : lo ≤ total weight (inputs ++ inputs') ∧ total weight (inputs ++ inputs') ≤ hi) :
    ∃ s', A.merge s t = .ok s' ∧ State weight flag lo hi mk (inputs ++ inputs') s' := by
  obtain ⟨rfl, hs⟩ := hs
  obtain ⟨rfl, ht⟩ := ht
  refine ⟨_, h.merge_ok _ _ _ _ hs ht (total_append inputs inputs' ▸ hrange), ?_, hrange⟩
  rw [total_append, any_append]

variable {e : Evaluation α}

/-- Every evaluation that does not fail ends with the total. -/
theorem run_eq (hgood : ∀ a ∈ e.inputs, good a) (hrun : e.run A = .ok s) :
    State weight flag lo hi mk e.inputs s := by
  refine Evaluation.run_sound (P := fun inputs => ∀ a ∈ inputs, good a)
    (fun a inputs hall b hb => hall b (mem_cons_of_mem a hb)) ?_ h.state_nil ?_ ?_ hgood
    hrun
  · intro inputs inputs' hall
    exact ⟨fun a ha => hall a (mem_append_left _ ha), fun a ha => hall a (mem_append_right _ ha)⟩
  · intro inputs s a s' hs hall hstep
    have ha := hall a mem_cons_self
    by_cases hrange : lo ≤ total weight (a :: inputs) ∧ total weight (a :: inputs) ≤ hi
    · obtain ⟨t, ht, hstate⟩ := h.state_update hs ha hrange
      cases ht.symm.trans hstep
      exact hstate
    · obtain ⟨rfl, hin⟩ := hs
      rw [total_cons, Int.add_comm] at hrange
      obtain ⟨e, he⟩ := h.update_error _ (inputs.any flag) a ha hin hrange
      cases he.symm.trans hstep
  · intro inputs s inputs' t s' hs ht _ hstep
    by_cases hrange : lo ≤ total weight (inputs ++ inputs') ∧ total weight (inputs ++ inputs') ≤ hi
    · obtain ⟨u, hu, hstate⟩ := h.state_merge hs ht hrange
      cases hu.symm.trans hstep
      exact hstate
    · obtain ⟨rfl, hs⟩ := hs
      obtain ⟨rfl, ht⟩ := ht
      rw [total_append] at hrange
      obtain ⟨e, he⟩ := h.merge_error _ (inputs.any flag) _ (inputs'.any flag) hs ht hrange
      cases he.symm.trans hstep

/-- No evaluation fails when the range holds the sums of all parts. -/
theorem exists_run (hgood : ∀ a ∈ e.inputs, good a) (hbounded : Bounded weight lo hi e.inputs) :
    ∃ s, e.run A = .ok s ∧ State weight flag lo hi mk e.inputs s := by
  refine Evaluation.exists_run
    (P := fun inputs => (∀ a ∈ inputs, good a) ∧ Bounded weight lo hi inputs)
    (fun a inputs hP => ⟨fun b hb => hP.1 b (mem_cons_of_mem a hb), hP.2.tail⟩) ?_
    h.state_nil ?_ ?_ e ⟨hgood, hbounded⟩
  · intro inputs inputs' hP
    obtain ⟨hleft, hright⟩ := hP.2.append
    exact ⟨⟨fun a ha => hP.1 a (mem_append_left _ ha), hleft⟩,
      ⟨fun a ha => hP.1 a (mem_append_right _ ha), hright⟩⟩
  · intro inputs s a hs hP
    exact h.state_update hs (hP.1 a mem_cons_self) hP.2.total
  · intro inputs s inputs' t hs ht hP
    exact h.state_merge hs ht hP.2.total

/-- One by one, the inputs can be added exactly when no prefix sum leaves the range. -/
theorem foldlM_iff_steady {order : List α} (hgood : ∀ a ∈ order, good a) {v : Int} (b : Bool)
    (hv : lo ≤ v ∧ v ≤ hi) :
    (∃ s, order.foldlM A.update (mk v b) = .ok s) ↔ Steady weight lo hi v order := by
  induction order generalizing v b with
  | nil => exact iff_of_true ⟨mk v b, rfl⟩ trivial
  | cons a order ih =>
    have ha := hgood a mem_cons_self
    have ih := @ih (fun c hc => hgood c (mem_cons_of_mem a hc)) (v + weight a)
    rw [foldlM_cons]
    by_cases hrange : lo ≤ v + weight a ∧ v + weight a ≤ hi
    · rw [h.update_ok v b a ha hv hrange]
      exact (ih _ hrange).trans (and_iff_right hrange).symm
    · obtain ⟨e, he⟩ := h.update_error v b a ha hv hrange
      rw [he]
      exact iff_of_false nofun fun hsteady => hrange hsteady.1

/-- All evaluations of the inputs end alike exactly when the range holds the sums of all
parts, or none of them can end well. -/
theorem agree_iff {β : Type} {finish : σ → Except ε β} (hgood : ∀ a ∈ inputs, good a) :
    (∀ e f : Evaluation α, e.inputs.Perm inputs → f.inputs.Perm inputs →
      (e.run A >>= finish).toOption = (f.run A >>= finish).toOption) ↔
      Bounded weight lo hi inputs ∨ ¬ (lo ≤ total weight inputs ∧ total weight inputs ≤ hi) ∨
        (finish (mk (total weight inputs) (inputs.any flag))).toOption = none := by
  have hgood' {order : List α} (hperm : order.Perm inputs) : ∀ a ∈ order, good a :=
    fun a ha => hgood a (hperm.mem_iff.mp ha)
  have hstate {e : Evaluation α} (hperm : e.inputs.Perm inputs) {s : σ}
      (hrun : e.run A = .ok s) : State weight flag lo hi mk inputs s := by
    have hs := h.run_eq (hgood' hperm) hrun
    rw [State, total_perm hperm, hperm.any_eq] at hs
    exact hs
  constructor
  · intro hagree
    by_contra hnot
    obtain ⟨hunbounded, hrest⟩ := not_or.mp hnot
    obtain ⟨hrange, hfinish⟩ := not_or.mp hrest
    -- one order of the inputs adds up, another one leaves the range
    have htotal : lo ≤ 0 + total weight inputs ∧ 0 + total weight inputs ≤ hi := by
      rw [Int.zero_add]
      exact not_not.mp hrange
    obtain ⟨order, hperm, hsteady⟩ :=
      exists_steady (fun a ha => h.range a (hgood a ha)) h.zero htotal
    obtain ⟨order', hperm', hfails⟩ := exists_not_steady h.zero hunbounded
    obtain ⟨s, hs⟩ := (h.foldlM_iff_steady (hgood' hperm) false h.zero).mpr hsteady
    rw [← h.new, ← Evaluation.run_ofList] at hs
    have hends := hagree (.ofList order) (.ofList order')
      ((Evaluation.inputs_ofList order).trans hperm)
      ((Evaluation.inputs_ofList order').trans hperm')
    have hgives : (((Evaluation.ofList order).run A >>= finish).toOption) ≠ none := by
      obtain ⟨hmk, -⟩ := hstate ((Evaluation.inputs_ofList order).trans hperm) hs
      rw [hs, hmk]
      exact hfinish
    cases hrun : (Evaluation.ofList order').run A with
    | error e =>
      rw [hrun] at hends
      exact hgives hends
    | ok s' =>
      rw [Evaluation.run_ofList, h.new] at hrun
      exact hfails ((h.foldlM_iff_steady (hgood' hperm') false h.zero).mp ⟨s', hrun⟩)
  · intro hcases e f he hf
    have hnone {e : Evaluation α} (he : e.inputs.Perm inputs)
        (hends : ¬ (lo ≤ total weight inputs ∧ total weight inputs ≤ hi) ∨
          (finish (mk (total weight inputs) (inputs.any flag))).toOption = none) :
        (e.run A >>= finish).toOption = none := by
      cases hrun : e.run A with
      | error e => rfl
      | ok s =>
        obtain ⟨hmk, hrange⟩ := hstate he hrun
        rcases hends with hout | hfails
        · exact absurd hrange hout
        · rw [hmk]
          exact hfails
    rcases hcases with hbounded | hends
    · obtain ⟨s, hs, -⟩ := h.exists_run (hgood' he) (hbounded.perm he.symm)
      obtain ⟨t, ht, -⟩ := h.exists_run (hgood' hf) (hbounded.perm hf.symm)
      have hsame : s = t := (hstate he hs).1.trans (hstate hf ht).1.symm
      rw [hs, ht, hsame]
    · rw [hnone he hends, hnone hf hends]

end

/-- Weights that are not negative leave the range only when the total does. -/
theorem bounded_or (hzero : lo ≤ 0) (hweight : ∀ a ∈ inputs, 0 ≤ weight a) :
    Bounded weight lo hi inputs ∨ ¬ (lo ≤ total weight inputs ∧ total weight inputs ≤ hi) := by
  have hpos : positiveTotal weight inputs = total weight inputs := by
    unfold positiveTotal total
    congr 1
    apply map_congr_left
    intro a ha
    exact max_eq_left (hweight a ha)
  have heq := total_eq weight inputs
  by_cases hhigh : total weight inputs ≤ hi
  · exact .inl ⟨by omega, by omega⟩
  · exact .inr fun hrange => hhigh hrange.2

end CheckedSum

/-! ## Choosing the best input -/

section

variable {β : Type}

/-- The better of two values, the first one of those that are equal. -/
def better (cmp : β → β → Ordering) : Option β → Option β → Option β
  | none, value => value
  | some held, none => some held
  | some held, some value => if cmp held value = .gt then some value else some held

/-- No input is better than the value. -/
def Best (cmp : β → β → Ordering) (value : α → Option β) (inputs : List α) (held : β) : Prop :=
  (∃ a ∈ inputs, value a = some held) ∧
    ∀ a ∈ inputs, ∀ v, value a = some v → cmp held v ≠ .gt

/-- The states of `A` hold the best input so far. -/
structure Choosing (A : Aggregator α σ ε) (good : α → Prop) (value : α → Option β)
    (cmp : β → β → Ordering) (mk : Option β → σ) : Prop where
  new : A.new = mk none
  update : ∀ held a, (∀ v ∈ held, ∃ b, good b ∧ value b = some v) → good a →
    A.update (mk held) a = .ok (mk (better cmp held (value a)))
  merge : ∀ held other, (∀ v ∈ held, ∃ b, good b ∧ value b = some v) →
    (∀ v ∈ other, ∃ b, good b ∧ value b = some v) →
    A.merge (mk held) (mk other) = .ok (mk (better cmp held other))

namespace Choosing

variable {A : Aggregator α σ ε} {good : α → Prop} {value : α → Option β}
  {cmp : β → β → Ordering} {mk : Option β → σ}

/-- What a state may hold for some inputs. -/
def Holds (cmp : β → β → Ordering) (value : α → Option β) (inputs : List α) :
    Option β → Prop
  | none => ∀ a ∈ inputs, value a = none
  | some held => Best cmp value inputs held

variable {inputs : List α}

theorem Holds.exists_good {held : Option β} (h : Holds cmp value inputs held)
    (hgood : ∀ a ∈ inputs, good a) : ∀ v ∈ held, ∃ b, good b ∧ value b = some v := by
  intro v hv
  rw [Option.mem_def] at hv
  subst hv
  obtain ⟨a, ha, hvalue⟩ := h.1
  exact ⟨a, hgood a ha, hvalue⟩

variable {inputs' : List α}

/-- The better of the best of two lists is the best of both. -/
theorem Holds.append [Std.TransCmp cmp] {held other : Option β} (h : Holds cmp value inputs held)
    (h' : Holds cmp value inputs' other) :
    Holds cmp value (inputs ++ inputs') (better cmp held other) := by
  cases held with
  | none =>
    cases other with
    | none =>
      intro a ha
      rcases mem_append.mp ha with ha | ha
      · exact h a ha
      · exact h' a ha
    | some v =>
      obtain ⟨⟨a, ha, hvalue⟩, hbest⟩ := h'
      refine ⟨⟨a, mem_append_right _ ha, hvalue⟩, fun b hb w hw => ?_⟩
      rcases mem_append.mp hb with hb | hb
      · rw [h b hb] at hw
        cases hw
      · exact hbest b hb w hw
  | some u =>
    obtain ⟨⟨a, ha, hvalue⟩, hbest⟩ := h
    cases other with
    | none =>
      refine ⟨⟨a, mem_append_left _ ha, hvalue⟩, fun b hb w hw => ?_⟩
      rcases mem_append.mp hb with hb | hb
      · exact hbest b hb w hw
      · rw [h' b hb] at hw
        cases hw
    | some v =>
      obtain ⟨⟨a', ha', hvalue'⟩, hbest'⟩ := h'
      by_cases hgt : cmp u v = .gt
      · have hlt : cmp v u = .lt := Std.OrientedCmp.lt_of_gt hgt
        simp only [better, if_pos hgt]
        refine ⟨⟨a', mem_append_right _ ha', hvalue'⟩, fun b hb w hw hworse => ?_⟩
        rcases mem_append.mp hb with hb | hb
        · have hle := hbest b hb w hw
          have hwv : cmp w v = .lt := Std.OrientedCmp.lt_of_gt hworse
          exact hle (Std.OrientedCmp.gt_of_lt (Std.TransCmp.lt_trans hwv hlt))
        · exact hbest' b hb w hw hworse
      · simp only [better, if_neg hgt]
        refine ⟨⟨a, mem_append_left _ ha, hvalue⟩, fun b hb w hw hworse => ?_⟩
        rcases mem_append.mp hb with hb | hb
        · exact hbest b hb w hw hworse
        · have hle := hbest' b hb w hw
          have hwu : cmp w u = .lt := Std.OrientedCmp.lt_of_gt hworse
          have huv : (cmp u v).isLE := Ordering.isLE_iff_ne_gt.mpr hgt
          have hwv : cmp w v = .lt := Std.TransCmp.lt_of_lt_of_isLE hwu huv
          exact hle (Std.OrientedCmp.gt_of_lt hwv)

theorem Holds.singleton [Std.TransCmp cmp] (a : α) : Holds cmp value [a] (value a) := by
  cases h : value a with
  | none =>
    intro b hb
    rw [mem_singleton.mp hb]
    exact h
  | some v =>
    refine ⟨⟨a, mem_singleton_self a, h⟩, fun b hb w hw => ?_⟩
    rw [mem_singleton.mp hb, h] at hw
    cases hw
    have hself : cmp v v = .eq := Std.ReflCmp.compare_self
    rw [hself]
    exact Ordering.noConfusion

theorem Holds.perm {held : Option β} (h : Holds cmp value inputs held)
    (hperm : inputs.Perm inputs') : Holds cmp value inputs' held := by
  cases held with
  | none => exact fun a ha => h a (hperm.mem_iff.mpr ha)
  | some v =>
    obtain ⟨⟨a, ha, hvalue⟩, hbest⟩ := h
    exact ⟨⟨a, hperm.mem_iff.mp ha, hvalue⟩, fun b hb => hbest b (hperm.mem_iff.mpr hb)⟩

section

variable (h : Choosing A good value cmp mk)
include h

/-- Every evaluation ends with a best input. -/
theorem exists_run [Std.TransCmp cmp] {e : Evaluation α} (hgood : ∀ a ∈ e.inputs, good a) :
    ∃ held, e.run A = .ok (mk held) ∧ Holds cmp value e.inputs held := by
  have hrun := Evaluation.exists_run (A := A)
    (R := fun inputs s => ∃ held, s = mk held ∧ Holds cmp value inputs held ∧ ∀ a ∈ inputs, good a)
    (P := fun inputs => ∀ a ∈ inputs, good a)
    (fun a inputs hall b hb => hall b (mem_cons_of_mem a hb))
    (fun inputs inputs' hall => ⟨fun a ha => hall a (mem_append_left _ ha),
      fun a ha => hall a (mem_append_right _ ha)⟩)
    ⟨none, h.new, fun a ha => absurd ha not_mem_nil, fun a ha => absurd ha not_mem_nil⟩
    ?_ ?_ e hgood
  · obtain ⟨s, hs, held, rfl, hheld, -⟩ := hrun
    exact ⟨held, hs, hheld⟩
  · intro inputs s a hs hall
    obtain ⟨held, rfl, hheld, hinputs⟩ := hs
    refine ⟨_, h.update held a (hheld.exists_good hinputs) (hall a mem_cons_self), _, rfl, ?_, hall⟩
    exact (hheld.append (.singleton a)).perm perm_append_comm
  · intro inputs s inputs' t hs ht hall
    obtain ⟨held, rfl, hheld, hinputs⟩ := hs
    obtain ⟨other, rfl, hother, hinputs'⟩ := ht
    exact ⟨_, h.merge held other (hheld.exists_good hinputs) (hother.exists_good hinputs'), _, rfl,
      hheld.append hother, hall⟩

/-- A best input that comes first is kept. -/
theorem foldlM_best {order : List α} {held : β} (hheld : ∃ b, good b ∧ value b = some held)
    (hgood : ∀ a ∈ order, good a) (hbest : ∀ a ∈ order, ∀ v, value a = some v → cmp held v ≠ .gt) :
    order.foldlM A.update (mk (some held)) = .ok (mk (some held)) := by
  induction order with
  | nil => rfl
  | cons a order ih =>
    have hkeep : better cmp (some held) (value a) = some held := by
      cases hvalue : value a with
      | none => rfl
      | some v => exact if_neg (hbest a mem_cons_self v hvalue)
    have hgood' : ∀ v ∈ some held, ∃ b, good b ∧ value b = some v := by
      intro v hv
      rw [← Option.mem_some.mp hv]
      exact hheld
    rw [foldlM_cons, h.update _ a hgood' (hgood a mem_cons_self), hkeep]
    exact ih (fun b hb => hgood b (mem_cons_of_mem a hb)) fun b hb => hbest b (mem_cons_of_mem a hb)

/-- Every best input is the end of some evaluation. -/
theorem exists_run_of_best {held : β} (hgood : ∀ a ∈ inputs, good a)
    (hbest : Best cmp value inputs held) :
    ∃ e : Evaluation α, e.inputs.Perm inputs ∧ e.run A = .ok (mk (some held)) := by
  obtain ⟨⟨a, ha, hvalue⟩, hkeeps⟩ := hbest
  obtain ⟨before, after, rfl⟩ := append_of_mem ha
  have hperm : (a :: (before ++ after)).Perm (before ++ a :: after) := perm_middle.symm
  refine ⟨.ofList (a :: (before ++ after)), (Evaluation.inputs_ofList _).trans hperm, ?_⟩
  have hnone : ∀ v ∈ (none : Option β), ∃ b, good b ∧ value b = some v :=
    fun v hv => by cases hv
  rw [Evaluation.run_ofList, h.new, foldlM_cons, h.update none a hnone (hgood a ha), hvalue]
  exact h.foldlM_best ⟨a, hgood a ha, hvalue⟩
    (fun b hb => hgood b (hperm.mem_iff.mp (mem_cons_of_mem a hb)))
    fun b hb => hkeeps b (hperm.mem_iff.mp (mem_cons_of_mem a hb))

/-- All evaluations of the inputs end alike exactly when there is one best input. -/
theorem agree_iff [Std.TransCmp cmp] {γ : Type} {finish : σ → Except ε γ}
    (hgood : ∀ a ∈ inputs, good a)
    (hfinish : ∀ u v, (∃ b, good b ∧ value b = some u) → (∃ b, good b ∧ value b = some v) →
      (finish (mk (some u))).toOption = (finish (mk (some v))).toOption → u = v) :
    (∀ e f : Evaluation α, e.inputs.Perm inputs → f.inputs.Perm inputs →
      (e.run A >>= finish).toOption = (f.run A >>= finish).toOption) ↔
      ∀ u v, Best cmp value inputs u → Best cmp value inputs v → u = v := by
  have hgood' {order : List α} (hperm : order.Perm inputs) : ∀ a ∈ order, good a :=
    fun a ha => hgood a (hperm.mem_iff.mp ha)
  constructor
  · intro hagree u v hu hv
    obtain ⟨e, he, hrun⟩ := h.exists_run_of_best hgood hu
    obtain ⟨f, hf, hrun'⟩ := h.exists_run_of_best hgood hv
    have hsame := hagree e f he hf
    rw [hrun, hrun'] at hsame
    obtain ⟨⟨a, ha, hua⟩, -⟩ := hu
    obtain ⟨⟨b, hb, hvb⟩, -⟩ := hv
    exact hfinish u v ⟨a, hgood a ha, hua⟩ ⟨b, hgood b hb, hvb⟩ hsame
  · intro hunique e f he hf
    obtain ⟨held, hrun, hheld⟩ := h.exists_run (hgood' he)
    obtain ⟨other, hrun', hother⟩ := h.exists_run (hgood' hf)
    have hheld := hheld.perm he
    have hother := hother.perm hf
    have hsame : held = other := by
      cases held with
      | none =>
        cases other with
        | none => rfl
        | some v =>
          obtain ⟨⟨a, ha, hvalue⟩, -⟩ := hother
          rw [hheld a ha] at hvalue
          cases hvalue
      | some u =>
        cases other with
        | none =>
          obtain ⟨⟨a, ha, hvalue⟩, -⟩ := hheld
          rw [hother a ha] at hvalue
          cases hvalue
        | some v => rw [hunique u v hheld hother]
    rw [hrun, hrun', hsame]

end

end Choosing

end

end RustDb.Lib
