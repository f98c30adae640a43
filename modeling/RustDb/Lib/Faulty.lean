import RustDb.Lib.Collections

/-!
# Programs over state that can fail or crash at every call

A program runs over a state and a script.  Each call to the outside world reads
one outcome of the script: the call succeeds, it reports a failure, or the
process crashes there.  In the last two cases the script also says whether the
effect of the call took place.  An empty script means that every call succeeds,
so a run with the empty script is a run without faults.

* `Faulty` is the monad of such programs; an error can be caught, a crash
  cannot.
* `Spec faults P m Q` says that from every state in `P`, `m` ends with a result
  and a state in `Q`: under every script when `faults` holds, and under the empty
  script in any case.  One proof with `faults` as a parameter gives both what a
  crash can leave behind and that a run without faults succeeds.
* `Keeps I m` is the special case of an invariant: since a script may stop the
  run at any call, `I` then holds at every crash point of `m`.
-/

namespace RustDb.Lib

/-- How one call to the outside world ends.  `effect` says whether a call that
does not succeed took effect all the same. -/
inductive Outcome where
  | done
  | failed (effect : Bool)
  | crashed (effect : Bool)
deriving DecidableEq, Repr

/-- The result of a program. -/
inductive Result (ε α : Type) where
  | ok (value : α)
  | error (error : ε)
  | crash
deriving DecidableEq, Repr

/-- A state together with the outcomes of the calls that are still to come. -/
structure Scripted (σ : Type) where
  state : σ
  script : List Outcome

/-- Programs over `σ` that fail with `ε` and return `α`. -/
def Faulty (σ ε α : Type) := Scripted σ → Result ε α × Scripted σ

namespace Faulty

variable {σ ε α β : Type}

/-- Runs `m` from a state under a script. -/
def run (m : Faulty σ ε α) (s : σ) (script : List Outcome) :
    Result ε α × Scripted σ :=
  m ⟨s, script⟩

instance : Monad (Faulty σ ε) where
  pure a := fun w => (.ok a, w)
  bind m k := fun w =>
    match m w with
    | (.ok a, w) => k a w
    | (.error e, w) => (.error e, w)
    | (.crash, w) => (.crash, w)

instance : LawfulMonad (Faulty σ ε) :=
  LawfulMonad.mk' _
    (fun m => by
      funext w
      simp only [Functor.map]
      rcases m w with ⟨_ | _ | _, w⟩ <;> rfl)
    (fun _ _ => rfl)
    (fun m _ _ => by
      funext w
      simp only [bind]
      rcases m w with ⟨_ | _ | _, w⟩ <;> rfl)

/-- The program stops with an error. -/
def fail (e : ε) : Faulty σ ε α := fun w => (.error e, w)

/-- The current state. -/
def get : Faulty σ ε σ := fun w => (.ok w.state, w)

/-- Changes the state without calling the outside world. -/
def modify (f : σ → σ) : Faulty σ ε Unit :=
  fun w => (.ok (), { w with state := f w.state })

/-- A computation that does not touch the state. -/
def lift (x : Except ε α) : Faulty σ ε α :=
  match x with
  | .ok a => pure a
  | .error e => fail e

/-- One call with effect `f` that reports `e` when it fails. -/
def call (e : ε) (f : σ → σ) : Faulty σ ε Unit := fun w =>
  match w.script with
  | [] => (.ok (), { w with state := f w.state })
  | .done :: script => (.ok (), ⟨f w.state, script⟩)
  | .failed effect :: script =>
    (.error e, ⟨if effect then f w.state else w.state, script⟩)
  | .crashed effect :: script =>
    (.crash, ⟨if effect then f w.state else w.state, script⟩)

/-- Runs `m` and returns its error as a value.  A crash is not caught. -/
def attempt (m : Faulty σ ε α) : Faulty σ ε (Except ε α) := fun w =>
  match m w with
  | (.ok a, w) => (.ok (.ok a), w)
  | (.error e, w) => (.ok (.error e), w)
  | (.crash, w) => (.crash, w)

/-- Runs `m` and rewrites its error. -/
def mapError (f : ε → ε) (m : Faulty σ ε α) : Faulty σ ε α := fun w =>
  match m w with
  | (.ok a, w) => (.ok a, w)
  | (.error e, w) => (.error (f e), w)
  | (.crash, w) => (.crash, w)

/-- The result and the state of a run without faults that succeeds. -/
def value? (m : Faulty σ ε α) (s : σ) : Option (α × σ) :=
  match m.run s [] with
  | (.ok a, w) => some (a, w.state)
  | _ => none

theorem exists_run_of_value? {m : Faulty σ ε α} {s s' : σ} {a : α}
    (h : m.value? s = some (a, s')) : ∃ script, m.run s [] = (.ok a, ⟨s', script⟩) := by
  unfold value? at h
  split at h
  · rename_i _ w hrun
    cases h
    exact ⟨w.script, hrun⟩
  · cases h

/-! ## Specifications -/

/-- From every state in `P`, `m` ends in `Q`.  Scripts other than the empty one
are considered only when `faults` holds. -/
def Spec (faults : Prop) (P : σ → Prop) (m : Faulty σ ε α)
    (Q : Result ε α → σ → Prop) : Prop :=
  ∀ s script, (script = [] ∨ faults) → P s →
    Q (m ⟨s, script⟩).1 (m ⟨s, script⟩).2.state ∧
      (script = [] → (m ⟨s, script⟩).2.script = [])

/-- `m` preserves `I`, at every point where it can stop. -/
def Keeps (I : σ → Prop) (m : Faulty σ ε α) : Prop :=
  Spec True I m fun _ s => I s

section Rules

variable {faults : Prop} {P P' : σ → Prop} {Q Q' : Result ε α → σ → Prop}
  {m : Faulty σ ε α} {k : α → Faulty σ ε β}

/-- What a specification says about a run under any script. -/
theorem Spec.run (h : Spec True P m Q) {s : σ} (script : List Outcome)
    (hs : P s) : Q (m ⟨s, script⟩).1 (m ⟨s, script⟩).2.state :=
  (h s script (.inr trivial) hs).1

theorem Spec.of_run {s₀ : σ} (h : Spec True (· = s₀) m Q)
    {script : List Outcome} {r : Result ε α} {w : Scripted σ}
    (hrun : m.run s₀ script = (r, w)) : Q r w.state := by
  have hQ := h.run script rfl
  change Q (m.run s₀ script).1 (m.run s₀ script).2.state at hQ
  rw [hrun] at hQ
  exact hQ

/-- What a specification says about a run without faults. -/
theorem Spec.run_nil (h : Spec faults P m Q) {s : σ} (hs : P s) :
    ∃ r s', m ⟨s, []⟩ = (r, ⟨s', []⟩) ∧ Q r s' := by
  obtain ⟨hQ, hscript⟩ := h s [] (.inl rfl) hs
  rcases hr : m ⟨s, []⟩ with ⟨r, s', script⟩
  rw [hr] at hQ hscript
  exact ⟨r, s', by rw [← hscript rfl], hQ⟩

/-- A stronger precondition and a weaker postcondition. -/
theorem Spec.weaken (h : Spec faults P m Q) (hP : ∀ s, P' s → P s)
    (hQ : ∀ r s, Q r s → Q' r s) : Spec faults P' m Q' :=
  fun s script hf hs =>
    ⟨hQ _ _ (h s script hf (hP s hs)).1, (h s script hf (hP s hs)).2⟩

/-- What holds under every script holds in any case. -/
theorem Spec.of_true (h : Spec True P m Q) : Spec faults P m Q :=
  fun s script _ hs => h s script (.inr trivial) hs

/-- A precondition may be split into the states it allows. -/
theorem Spec.of_forall (h : ∀ s₀, P s₀ → Spec faults (· = s₀) m Q) :
    Spec faults P m Q :=
  fun s script hf hs => h s hs s script hf rfl

variable {R : Result ε β → σ → Prop}

/-- Sequencing: the continuation starts where a successful `m` ends, and a
failure or a crash of `m` already satisfies the postcondition. -/
theorem Spec.bind (hm : Spec faults P m Q)
    (hk : ∀ a, Spec faults (Q (.ok a)) (k a) R)
    (he : ∀ e s, Q (.error e) s → R (.error e) s)
    (hc : ∀ s, Q .crash s → R .crash s) : Spec faults P (m >>= k) R := by
  intro s script hf hs
  obtain ⟨h, hscript⟩ := hm s script hf hs
  simp only [Bind.bind]
  rcases hr : m ⟨s, script⟩ with ⟨_ | _ | _, s', script'⟩ <;>
    rw [hr] at h hscript
  · have hf' : script' = [] ∨ faults := hf.imp_left hscript
    refine ⟨(hk _ s' script' hf' h).1, fun hnil => ?_⟩
    exact (hk _ s' script' hf' h).2 (hscript hnil)
  · exact ⟨he _ _ h, hscript⟩
  · exact ⟨hc _ h, hscript⟩

theorem Spec.pure {a : α} (h : ∀ s, P s → Q (.ok a) s) :
    Spec faults P (pure a) Q :=
  fun s _ _ hs => ⟨h s hs, id⟩

theorem Spec.fail {e : ε} (h : ∀ s, P s → Q (.error e) s) :
    Spec faults P (Faulty.fail e) Q :=
  fun s _ _ hs => ⟨h s hs, id⟩

theorem Spec.modify {Q : Result ε Unit → σ → Prop} {f : σ → σ}
    (h : ∀ s, P s → Q (.ok ()) (f s)) : Spec faults P (Faulty.modify f) Q :=
  fun s _ _ hs => ⟨h s hs, id⟩

theorem Spec.lift {x : Except ε α} (hok : ∀ a s, x = .ok a → P s → Q (.ok a) s)
    (herr : ∀ e s, x = .error e → P s → Q (.error e) s) :
    Spec faults P (Faulty.lift x) Q := by
  intro s script _ hs
  cases x with
  | ok a => exact ⟨hok a s rfl hs, id⟩
  | error e => exact ⟨herr e s rfl hs, id⟩

/-- After a check the run goes on where the check succeeds. -/
theorem Spec.lift_bind {x : Except ε α}
    (hok : ∀ a, x = .ok a → Spec faults P (k a) R)
    (herr : ∀ e s, x = .error e → P s → R (.error e) s) :
    Spec faults P (Faulty.lift x >>= k) R := by
  cases x with
  | ok a => exact hok a rfl
  | error e => exact fun s _ _ hs => ⟨herr e s rfl hs, id⟩

/-- The continuation of `get` may use what the state is. -/
theorem Spec.get_bind {k : σ → Faulty σ ε β}
    (h : ∀ s₀, P s₀ → Spec faults (· = s₀) (k s₀) R) :
    Spec faults P (Faulty.get >>= k) R :=
  fun s script hf hs => h s hs s script hf rfl

theorem Spec.get_self {s₀ : σ} {k : σ → Faulty σ ε β}
    (h : Spec faults (· = s₀) (k s₀) R) :
    Spec faults (· = s₀) (Faulty.get >>= k) R :=
  Spec.get_bind fun _ hs => hs ▸ h

theorem Spec.modify_self {s₀ : σ} {f : σ → σ} {k : Unit → Faulty σ ε β}
    (h : Spec faults (· = f s₀) (k ()) R) :
    Spec faults (· = s₀) (Faulty.modify f >>= k) R :=
  fun s script hf hs => h (f s) script hf (hs ▸ rfl)

theorem Spec.call {Q : Result ε Unit → σ → Prop} {e : ε} {f : σ → σ}
    (hok : ∀ s, P s → Q (.ok ()) (f s))
    (herr : faults → ∀ s, P s → Q (.error e) s ∧ Q (.error e) (f s))
    (hcrash : faults → ∀ s, P s → Q .crash s ∧ Q .crash (f s)) :
    Spec faults P (Faulty.call e f) Q := by
  intro s script hf hs
  rcases script with _ | ⟨_ | effect | effect, script⟩
  · exact ⟨hok s hs, fun _ => rfl⟩
  · exact ⟨hok s hs, fun h => by cases h⟩
  · have hf' : faults := hf.resolve_left (by simp)
    refine ⟨?_, fun h => by cases h⟩
    cases effect
    · exact (herr hf' s hs).1
    · exact (herr hf' s hs).2
  · have hf' : faults := hf.resolve_left (by simp)
    refine ⟨?_, fun h => by cases h⟩
    cases effect
    · exact (hcrash hf' s hs).1
    · exact (hcrash hf' s hs).2

theorem Spec.attempt {R : Result ε (Except ε α) → σ → Prop}
    (hm : Spec faults P m Q) (hok : ∀ a s, Q (.ok a) s → R (.ok (.ok a)) s)
    (herr : ∀ e s, Q (.error e) s → R (.ok (.error e)) s)
    (hc : ∀ s, Q .crash s → R .crash s) :
    Spec faults P (Faulty.attempt m) R := by
  intro s script hf hs
  obtain ⟨h, hscript⟩ := hm s script hf hs
  simp only [Faulty.attempt]
  rcases hr : m ⟨s, script⟩ with ⟨_ | _ | _, s', script'⟩ <;>
    rw [hr] at h hscript
  · exact ⟨hok _ _ h, hscript⟩
  · exact ⟨herr _ _ h, hscript⟩
  · exact ⟨hc _ h, hscript⟩

theorem Spec.mapError {f : ε → ε} (hm : Spec faults P m Q)
    (hok : ∀ a s, Q (.ok a) s → Q' (.ok a) s)
    (herr : ∀ e s, Q (.error e) s → Q' (.error (f e)) s)
    (hc : ∀ s, Q .crash s → Q' .crash s) :
    Spec faults P (Faulty.mapError f m) Q' := by
  intro s script hf hs
  obtain ⟨h, hscript⟩ := hm s script hf hs
  simp only [Faulty.mapError]
  rcases hr : m ⟨s, script⟩ with ⟨_ | _ | _, s', script'⟩ <;>
    rw [hr] at h hscript
  · exact ⟨hok _ _ h, hscript⟩
  · exact ⟨herr _ _ h, hscript⟩
  · exact ⟨hc _ h, hscript⟩

end Rules

/-! ## Postconditions in two parts -/

/-- The postcondition `Q` after success, and `E` after a failure with an error
or, for `none`, after a crash. -/
def ends (Q : α → σ → Prop) (E : Option ε → σ → Prop) : Result ε α → σ → Prop
  | .ok a, s => Q a s
  | .error e, s => E (some e) s
  | .crash, s => E none s

/-- The case of an `E` that does not look at the error. -/
abbrev outcome (Q : α → σ → Prop) (E : σ → Prop) : Result ε α → σ → Prop :=
  ends Q fun _ => E

/-- A run without faults succeeds when nothing but a fault can stop it. -/
theorem Spec.run_nil_ok {P : σ → Prop} {m : Faulty σ ε α} {Q : α → σ → Prop}
    {E : Option ε → σ → Prop} (h : Spec False P m (ends Q E)) {s : σ} (hs : P s)
    (hE : ∀ e s', ¬ E e s') : ∃ a s', m.run s [] = (.ok a, ⟨s', []⟩) ∧ Q a s' := by
  obtain ⟨r, s', hrun, hr⟩ := h.run_nil hs
  rcases r with a | e | _
  · exact ⟨a, s', hrun, hr⟩
  · exact absurd hr (hE _ _)
  · exact absurd hr (hE _ _)

/-- The states after `attempt`: those of `Q` or of `E`, as the value says. -/
def caught (Q : α → σ → Prop) (E : Option ε → σ → Prop) :
    Except ε α → σ → Prop
  | .ok a, s => Q a s
  | .error e, s => E (some e) s

section EndsRules

variable {faults : Prop} {P : σ → Prop} {Q Q' : α → σ → Prop}
  {E E' : Option ε → σ → Prop} {m : Faulty σ ε α} {k : α → Faulty σ ε β}
  {R : β → σ → Prop}

/-- Sequencing when both parts may fail into the same states. -/
theorem Spec.seq (hm : Spec faults P m (ends Q E))
    (hk : ∀ a, Spec faults (Q a) (k a) (ends R E)) :
    Spec faults P (m >>= k) (ends R E) :=
  Spec.bind hm hk (fun _ _ h => h) (fun _ h => h)

theorem Spec.callOutcome {Q : Unit → σ → Prop} {E : σ → Prop} {e : ε} {f : σ → σ}
    (hok : ∀ s, P s → Q () (f s)) (hE : faults → ∀ s, P s → E s ∧ E (f s)) :
    Spec faults P (Faulty.call e f) (outcome Q E) :=
  Spec.call hok hE hE

/-- Catching the error of `m`: its outcome decides how the run goes on. -/
theorem Spec.attempt_bind {k : Except ε α → Faulty σ ε β}
    (hm : Spec faults P m (ends Q E)) (hc : ∀ s, E none s → E' none s)
    (hok : ∀ a, Spec faults (Q a) (k (.ok a)) (ends R E'))
    (herr : ∀ e, Spec faults (E (some e)) (k (.error e)) (ends R E')) :
    Spec faults P (Faulty.attempt m >>= k) (ends R E') := by
  refine Spec.seq (Q := caught Q E) (Spec.attempt hm (fun _ _ h => h) (fun _ _ h => h) hc) ?_
  intro r
  cases r with
  | ok a => exact hok a
  | error e => exact herr e

/-- Catching an error when the states after a failure stay the same. -/
theorem Spec.attemptOutcome {E : σ → Prop} {k : Except ε α → Faulty σ ε β}
    (hm : Spec faults P m (outcome Q E))
    (hok : ∀ a, Spec faults (Q a) (k (.ok a)) (outcome R E))
    (herr : ∀ e, Spec faults E (k (.error e)) (outcome R E)) :
    Spec faults P (Faulty.attempt m >>= k) (outcome R E) :=
  Spec.attempt_bind hm (fun _ h => h) hok herr

/-- Weakening the two parts of such a postcondition. -/
theorem Spec.weakenOutcome (h : Spec faults P m (ends Q E))
    (hQ : ∀ a s, Q a s → Q' a s) (hE : ∀ e s, E e s → E' e s) :
    Spec faults P m (ends Q' E') := by
  refine Spec.weaken h (fun _ hs => hs) fun r s hr => ?_
  cases r with
  | ok a => exact hQ a s hr
  | error e => exact hE (some e) s hr
  | crash => exact hE none s hr

/-- Sequencing from each state in which `m` can end. -/
theorem Spec.andThen (hm : Spec faults P m (ends Q E)) (hE : ∀ e s, E e s → E' e s)
    (hk : ∀ a s₁, Q a s₁ → Spec faults (· = s₁) (k a) (ends R E')) :
    Spec faults P (m >>= k) (ends R E') :=
  Spec.seq (Spec.weakenOutcome hm (fun _ _ h => h) hE) fun a => Spec.of_forall (hk a)

/-- A call without effect fails only where faults are allowed. -/
theorem Spec.idle_bind {e : ε} {k : Unit → Faulty σ ε β} (hE : faults → ∀ e s, P s → E e s)
    (hk : Spec faults P (k ()) (ends R E)) :
    Spec faults P (Faulty.call e id >>= k) (ends R E) :=
  Spec.seq (Q := fun _ => P) (Spec.call (fun _ h => h)
    (fun hf s h => ⟨hE hf _ s h, hE hf _ s h⟩) fun hf s h => ⟨hE hf _ s h, hE hf _ s h⟩) fun _ => hk

/-- The run goes on after a check that does not reject. -/
theorem Spec.check {c : Prop} [Decidable c] {e : ε} {k : Unit → Faulty σ ε β}
    (hbad : c → ∀ s, P s → E (some e) s) (hk : ¬ c → Spec faults P (k ()) (ends R E)) :
    Spec faults P (Faulty.lift (rejectIf c e) >>= k) (ends R E) := by
  refine Spec.lift_bind (fun _ h => hk (rejectIf_eq_ok.mp h)) fun e' s h hs => ?_
  unfold rejectIf at h
  split at h
  case isTrue hc =>
    cases h
    exact hbad hc s hs
  case isFalse => cases h

/-- Another error changes nothing where the states after a failure do not depend on it. -/
theorem Spec.mapErrorOutcome {E : σ → Prop} {f : ε → ε} (hm : Spec faults P m (outcome Q E)) :
    Spec faults P (Faulty.mapError f m) (outcome Q E) :=
  Spec.mapError hm (fun _ _ h => h) (fun _ _ h => h) fun _ h => h

/-- A loop ends in `I` when every round leads from `I` to `I`. -/
theorem Spec.forM {f : α → Faulty σ ε Unit} {I : σ → Prop} {l : List α}
    (h : ∀ a ∈ l, Spec faults I (f a) (ends (fun _ => I) E)) :
    Spec faults I (forM l f) (ends (fun _ => I) E) := by
  induction l with
  | nil => exact Spec.pure fun _ h => h
  | cons a l ih =>
    rw [List.forM_cons]
    exact Spec.seq (h a (List.mem_cons_self ..))
      fun _ => ih fun b hb => h b (List.mem_cons_of_mem a hb)

end EndsRules

section KeepsRules

variable {I : σ → Prop} {m : Faulty σ ε α} {k : α → Faulty σ ε β}

theorem Keeps.bind (hm : Keeps I m) (hk : ∀ a, Keeps I (k a)) :
    Keeps I (m >>= k) :=
  Spec.bind hm hk (fun _ _ h => h) (fun _ h => h)

theorem Keeps.pure {a : α} : Keeps I (pure a : Faulty σ ε α) :=
  Spec.pure fun _ h => h

theorem Keeps.fail {e : ε} : Keeps I (Faulty.fail e : Faulty σ ε α) :=
  Spec.fail fun _ h => h

theorem Keeps.call {e : ε} {f : σ → σ} (h : ∀ s, I s → I (f s)) :
    Keeps I (Faulty.call e f) :=
  Spec.call h (fun _ s hs => ⟨hs, h s hs⟩) (fun _ s hs => ⟨hs, h s hs⟩)

theorem Keeps.attempt (hm : Keeps I m) : Keeps I (Faulty.attempt m) :=
  Spec.attempt hm (fun _ _ h => h) (fun _ _ h => h) (fun _ h => h)

theorem Keeps.get : Keeps I (Faulty.get : Faulty σ ε σ) :=
  fun _ _ _ hs => ⟨hs, id⟩

theorem Keeps.lift {x : Except ε α} : Keeps I (Faulty.lift x : Faulty σ ε α) :=
  Spec.lift (fun _ _ _ h => h) fun _ _ _ h => h

theorem Keeps.forM {f : α → Faulty σ ε Unit} {l : List α} (h : ∀ a ∈ l, Keeps I (f a)) :
    Keeps I (forM l f) := by
  induction l with
  | nil => exact Keeps.pure
  | cons a l ih =>
    rw [List.forM_cons]
    exact Keeps.bind (h a (List.mem_cons_self ..))
      fun _ => ih fun b hb => h b (List.mem_cons_of_mem a hb)

/-- What is kept under faults is kept in any case, next to a fact that does not
look at the state. -/
theorem Keeps.outcome {faults C : Prop} (hm : Keeps I m) :
    Spec faults (fun s => I s ∧ C) m
      (Faulty.outcome (fun _ s => I s ∧ C) fun s => I s ∧ C) := by
  intro s script _ hs
  obtain ⟨h, hscript⟩ := hm s script (.inr trivial) hs.1
  refine ⟨?_, hscript⟩
  rcases hr : m ⟨s, script⟩ with ⟨_ | _ | _, s', script'⟩ <;> rw [hr] at h
  · exact ⟨h, hs.2⟩
  · exact ⟨h, hs.2⟩
  · exact ⟨h, hs.2⟩

end KeepsRules

end Faulty

end RustDb.Lib
