import Mathlib.Algebra.Order.BigOperators.Group.Multiset
import RustDb.Execution.Error
import RustDb.Lib.Checked

/-!
# The quota of spilled bytes

`runtime/spill/quota.rs`: the bytes that queries have spilled are counted for each query and for
the engine.  A reservation holds bytes as pending, a charge holds bytes as committed, and each
gives its bytes back when it is dropped.

* `System`, `Step`: the two levels of accounts with all live reservations and charges.
* `Conserved`: the accounts are what the live reservations and charges will give back.
* `spill_quota_is_conserved_iff`: all accounts balance unless bytes are merged into a charge that
  has committed nothing and so gives nothing back.
-/

namespace RustDb.Runtime.Spill

open RustDb.Lib RustDb.Execution Checked

/-! ## Tokens -/

/-- A `SpillReservation` or a `SpillCharge` of a query. -/
structure Token where
  query : Nat
  bytes : Nat
  active : Bool
deriving DecidableEq

/-- `SpillReservation::commit`. -/
def Token.commit (reservation : Token) (actual : Nat) : Except Error Token :=
  if reservation.bytes < actual then
    .error (.invalidArgument (s!"spill write committed {actual} bytes after reserving only " ++
      s!"{reservation.bytes} bytes"))
  else .ok ⟨reservation.query, actual, actual ≠ 0⟩

/-- `SpillCharge::merge`; the other charge is consumed. -/
def Token.merge (charge other : Token) : Except Error Token :=
  if !other.active then .ok charge
  else
    match fits 64 (charge.bytes + other.bytes) with
    | some bytes => .ok { charge with bytes }
    | none => .error (.resourceExhausted "spill committed-byte accounting overflowed")

variable {token charge : Token} {actual : Nat}

theorem Token.commit_eq_ok (h : token.commit actual = .ok charge) :
    actual ≤ token.bytes ∧ charge = ⟨token.query, actual, actual ≠ 0⟩ := by
  unfold Token.commit at h
  split at h
  case isTrue => cases h
  case isFalse hle =>
    cases h
    exact ⟨Nat.le_of_not_lt hle, rfl⟩

variable {other merged : Token}

theorem Token.merge_eq_ok (h : charge.merge other = .ok merged) :
    merged = { charge with bytes := charge.bytes + if other.active then other.bytes else 0 } := by
  unfold Token.merge at h
  cases hother : other.active with
  | false =>
    rw [hother] at h
    cases h
    rfl
  | true =>
    simp only [hother, Bool.not_true, Bool.false_eq_true, if_false] at h
    split at h
    case h_1 bytes hbytes =>
      obtain ⟨-, rfl⟩ := fits_eq_some.mp hbytes
      cases h
      rfl
    case h_2 => cases h

/-! ## Accounts -/

/-- The bytes of files that exist and of files that are being written. -/
structure Usage where
  committed : Nat
  pending : Nat

/-- What the operating system reports about a disk. -/
structure DiskSpace where
  availableBytes : Nat
  totalBytes : Nat

/-- The limits of spilling. -/
structure SpillConfig where
  directory : String
  engineLimitBytes : Option Nat
  queryLimitBytes : Option Nat
  minFreeBytes : Nat
  /-- `ratio_bytes` with the ratio of the configuration. -/
  ratioBytes : Nat → Nat

/-- The usage after a reservation, in 64 bits. -/
def projectedUsage (usage : Usage) (bytes : Nat) (scope : String) : Except Error Nat :=
  match (fits 64 (usage.committed + usage.pending)).bind
      fun used => fits 64 (used + bytes) with
  | some projected => .ok projected
  | none => .error (.resourceExhausted s!"spill {scope} byte accounting overflowed")

/-- The usage is within the limit of its scope. -/
def enforceLimit (scope : String) (limit : Option Nat) (projected : Nat) : Except Error Unit :=
  match limit with
  | some limit =>
    if limit < projected then
      .error (.resourceExhausted (s!"spill {scope} quota exceeded: projected {projected} bytes, " ++
        s!"limit {limit} bytes"))
    else .ok ()
  | none => .ok ()

/-- `check_disk_space`, with what the probe of the disk returned.  All bytes that are reserved and
not yet written must leave the configured reserve free. -/
def checkDiskSpace (config : SpillConfig) (probe : Except Error DiskSpace) (engine : Usage)
    (bytes : Nat) : Except Error Unit := do
  let disk ← probe
  if disk.totalBytes < disk.availableBytes then
    .error (.internal (s!"disk-space probe returned {disk.availableBytes} available bytes but " ++
      s!"only {disk.totalBytes} total bytes for '" ++ config.directory ++ "'"))
  else
    let requiredFree := max config.minFreeBytes (config.ratioBytes disk.totalBytes)
    match fits 64 (engine.pending + bytes) with
    | none => .error (.resourceExhausted "spill pending-byte accounting overflowed")
    | some pendingAfter =>
      match fits 64 (requiredFree + pendingAfter) with
      | none => .error (.resourceExhausted
        "spill free-space requirement exceeds the supported byte range")
      | some requiredAvailable =>
        if disk.availableBytes < requiredAvailable then
          .error (.resourceExhausted (s!"spill write of {bytes} bytes would leave less than the " ++
            "configured free-space reserve on '" ++ config.directory ++
            s!"': available {disk.availableBytes}, pending {engine.pending}, " ++
            s!"required free {requiredFree}"))
        else .ok ()

/-- After how many reserved bytes the disk is asked again. -/
def diskSpaceCheckBytes : Nat := 64 * 1024 * 1024

/-- `try_reserve`: the reservation, and the bytes since the last probe. -/
def tryReserve (config : SpillConfig) (probe : Except Error DiskSpace) (engine query : Usage)
    (sinceProbe id bytes : Nat) : Except Error (Token × Nat) := do
  let engineProjected ← projectedUsage engine bytes "engine"
  let queryProjected ← projectedUsage query bytes "query"
  enforceLimit "engine" config.engineLimitBytes engineProjected
  enforceLimit "query" config.queryLimitBytes queryProjected
  let sinceProbe := min (sinceProbe + bytes) (2 ^ 64 - 1)
  if diskSpaceCheckBytes ≤ sinceProbe then do
    checkDiskSpace config probe engine bytes
    .ok (⟨id, bytes, bytes ≠ 0⟩, 0)
  else .ok (⟨id, bytes, bytes ≠ 0⟩, sinceProbe)

/-! ## The system -/

/-- The accounts: the engine and each query. -/
inductive Scope where
  | engine
  | query (id : Nat)
deriving DecidableEq

/-- The accounts in which a token of a query is counted. -/
def covers (query : Nat) : Scope → Bool
  | .engine => true
  | .query id => id = query

/-- Changes the account of a query and that of the engine. -/
def change (usage : Scope → Usage) (query : Nat) (f : Usage → Usage) : Scope → Usage :=
  fun scope => if covers query scope then f (usage scope) else usage scope

/-- `release_pending`, when the reservation is active; subtraction saturates. -/
def releasePending (usage : Scope → Usage) (token : Token) : Scope → Usage :=
  change usage token.query fun usage =>
    if token.active then { usage with pending := usage.pending - token.bytes } else usage

/-- `release_inner`. -/
def releaseCommitted (usage : Scope → Usage) (token : Token) : Scope → Usage :=
  change usage token.query fun usage =>
    if token.active then { usage with committed := usage.committed - token.bytes } else usage

/-- `QuerySpillQuota::commit`, when the reservation is active. -/
def commitUsage (usage : Scope → Usage) (token : Token) (actual : Nat) : Scope → Usage :=
  change usage token.query fun usage =>
    if token.active then
      ⟨min (usage.committed + actual) (2 ^ 64 - 1), usage.pending - token.bytes⟩
    else usage

/-- The query gives the bytes back and the engine keeps them. -/
def releaseQueryCommitted (usage : Scope → Usage) (token : Token) (scope : Scope) : Usage :=
  if scope = .query token.query then
    { usage scope with committed := (usage scope).committed - token.bytes }
  else usage scope

/-- The engine and all queries, with the live tokens. -/
structure System where
  usage : Scope → Usage
  bytesSinceProbe : Nat
  reservations : Multiset Token
  charges : Multiset Token
  /-- The bytes of each `RetainedEngineCharge`. -/
  retained : Multiset Nat

/-- A call of any thread.  The flag tells whether it merges bytes into a charge that is not
active. -/
inductive Step (config : SpillConfig) : System → System → Bool → Prop where
  | reserve {usage since since' reservations charges retained query bytes probe token} :
    tryReserve config probe (usage .engine) (usage (.query query)) since query bytes =
      .ok (token, since') →
    Step config ⟨usage, since, reservations, charges, retained⟩
      ⟨change usage query fun usage => { usage with pending := usage.pending + bytes }, since',
        token ::ₘ reservations, charges, retained⟩ false
  | commit {usage since reservations charges retained token actual charge} :
    token.commit actual = .ok charge →
    Step config ⟨usage, since, token ::ₘ reservations, charges, retained⟩
      ⟨commitUsage usage token actual, since, reservations, charge ::ₘ charges, retained⟩ false
  /-- The drop of a reservation, also by a commit that fails. -/
  | dropReservation {usage since reservations charges retained token} :
    Step config ⟨usage, since, token ::ₘ reservations, charges, retained⟩
      ⟨releasePending usage token, since, reservations, charges, retained⟩ false
  | merge {usage since reservations charges retained charge other merged} :
    charge.query = other.query → charge.merge other = .ok merged →
    Step config ⟨usage, since, reservations, charge ::ₘ other ::ₘ charges, retained⟩
      ⟨usage, since, reservations, merged ::ₘ charges, retained⟩ (other.active && !charge.active)
  /-- The drop of a charge, also by a merge that fails. -/
  | release {usage since reservations charges retained charge} :
    Step config ⟨usage, since, reservations, charge ::ₘ charges, retained⟩
      ⟨releaseCommitted usage charge, since, reservations, charges, retained⟩ false
  | retainEngine {usage since reservations charges retained charge} : charge.active = true →
    Step config ⟨usage, since, reservations, charge ::ₘ charges, retained⟩
      ⟨releaseQueryCommitted usage charge, since, reservations, charges,
        charge.bytes ::ₘ retained⟩ false

/-- No usage and no tokens. -/
def System.new : System := ⟨fun _ => ⟨0, 0⟩, 0, 0, 0, 0⟩

/-- A run of calls from a system: the systems after them, with their flags. -/
inductive Trace (config : SpillConfig) : System → List (System × Bool) → Prop where
  | nil {s : System} : Trace config s []
  | cons {s s' : System} {leaks : Bool} {rest : List (System × Bool)} :
    Step config s s' leaks → Trace config s' rest → Trace config s ((s', leaks) :: rest)

/-! ## Balance -/

/-- What a live token will give back to an account. -/
def weight (scope : Scope) (token : Token) : Nat :=
  if token.active ∧ covers token.query scope then token.bytes else 0

/-- What some tokens will give back to an account. -/
def total (scope : Scope) (tokens : Multiset Token) : Nat := (tokens.map (weight scope)).sum

/-- The retained bytes of an account; a query has none. -/
def retainedIn (retained : Multiset Nat) : Scope → Nat
  | .engine => retained.sum
  | .query _ => 0

/-- The largest sum that an account may have. -/
def limit (config : SpillConfig) : Scope → Nat
  | .engine => min (2 ^ 64 - 1) (config.engineLimitBytes.getD (2 ^ 64 - 1))
  | .query _ => min (2 ^ 64 - 1) (config.queryLimitBytes.getD (2 ^ 64 - 1))

/-- An account stays within its limit, and holds what the live tokens and the retained charges
hold. -/
structure Account (config : SpillConfig) (s : System) (scope : Scope) : Prop where
  limit : (s.usage scope).committed + (s.usage scope).pending ≤ limit config scope
  pending : (s.usage scope).pending = total scope s.reservations
  committed : (s.usage scope).committed = total scope s.charges + retainedIn s.retained scope

/-- The accounts are right, no release or commit of a live token saturates, and without live
tokens only the retained bytes are left. -/
structure Conserved (config : SpillConfig) (s : System) : Prop where
  account : ∀ scope, Account config s scope
  releases : ∀ token ∈ s.reservations, token.active = true → ∀ scope,
    covers token.query scope = true → token.bytes ≤ (s.usage scope).pending ∧
      (s.usage scope).committed + token.bytes ≤ 2 ^ 64 - 1
  refunds : ∀ token ∈ s.charges, token.active = true → ∀ scope,
    covers token.query scope = true → token.bytes ≤ (s.usage scope).committed
  empty : s.reservations = 0 → s.charges = 0 → ∀ scope,
    s.usage scope = ⟨retainedIn s.retained scope, 0⟩

/-- The invariant of the systems that no merge has leaked bytes of. -/
structure Balanced (config : SpillConfig) (s : System) : Prop where
  account : ∀ scope, Account config s scope
  active : ∀ token ∈ s.reservations + s.charges, token.active = decide (token.bytes ≠ 0)

@[simp] theorem total_cons (scope : Scope) (token : Token) (tokens : Multiset Token) :
    total scope (token ::ₘ tokens) = weight scope token + total scope tokens := by
  simp [total]

theorem weight_le_total (scope : Scope) {tokens : Multiset Token} (h : token ∈ tokens) :
    weight scope token ≤ total scope tokens := by
  obtain ⟨rest, rfl⟩ := Multiset.exists_cons_of_mem h
  rw [total_cons]
  omega

theorem limit_le (config : SpillConfig) (scope : Scope) : limit config scope ≤ 2 ^ 64 - 1 := by
  cases scope <;> exact min_le_left _ _

variable {config : SpillConfig} {s : System}

/-- Balanced accounts have all that is asked of them. -/
theorem Balanced.conserved (h : Balanced config s) :
    Conserved config s where
  account := h.account
  releases := by
    intro token hmem hactive scope hcovers
    have hweight := weight_le_total scope hmem
    rw [weight, if_pos ⟨hactive, hcovers⟩, ← (h.account scope).pending] at hweight
    have hlimit := (h.account scope).limit
    have hbound := limit_le config scope
    omega
  refunds := by
    intro token hmem hactive scope hcovers
    have hweight := weight_le_total scope hmem
    rw [weight, if_pos ⟨hactive, hcovers⟩] at hweight
    have hcommitted := (h.account scope).committed
    omega
  empty := by
    intro hreservations hcharges scope
    obtain ⟨-, hpending, hcommitted⟩ := h.account scope
    rw [hreservations] at hpending
    rw [hcharges] at hcommitted
    simp only [total, Multiset.map_zero, Multiset.sum_zero, zero_add] at hpending hcommitted
    rw [← hpending, ← hcommitted]

/-! ## Steps -/

variable {bytes : Nat}

theorem le_of_enforceLimit {usage : Usage} {projected : Nat} {scope scope' : String}
    {bound : Option Nat} (hprojected : projectedUsage usage bytes scope = .ok projected)
    (hlimit : enforceLimit scope' bound projected = .ok ()) :
    usage.committed + usage.pending + bytes ≤ min (2 ^ 64 - 1) (bound.getD (2 ^ 64 - 1)) := by
  unfold projectedUsage at hprojected
  split at hprojected
  case h_2 => cases hprojected
  case h_1 sum hsum =>
    obtain ⟨used, hused, hsum⟩ := Option.bind_eq_some_iff.mp hsum
    obtain ⟨_, rfl⟩ := fits_eq_some.mp hused
    obtain ⟨hfits, rfl⟩ := fits_eq_some.mp hsum
    cases hprojected
    unfold enforceLimit at hlimit
    cases bound with
    | none => simp; omega
    | some bound =>
      simp only [Option.getD_some] at hlimit ⊢
      split at hlimit
      · cases hlimit
      · omega

/-- What `tryReserve` has checked. -/
theorem tryReserve_eq_ok {probe : Except Error DiskSpace} {query sinceProbe : Nat} {since : Nat}
    {usage : Scope → Usage}
    (h : tryReserve config probe (usage .engine) (usage (.query query)) since query bytes =
      .ok (token, sinceProbe)) :
    token = ⟨query, bytes, bytes ≠ 0⟩ ∧ ∀ scope, covers query scope = true →
      (usage scope).committed + (usage scope).pending + bytes ≤ limit config scope := by
  unfold tryReserve at h
  obtain ⟨engineProjected, hengine, h⟩ := bind_eq_ok.mp h
  obtain ⟨queryProjected, hquery, h⟩ := bind_eq_ok.mp h
  obtain ⟨_, hengineLimit, h⟩ := bind_eq_ok.mp h
  obtain ⟨_, hqueryLimit, h⟩ := bind_eq_ok.mp h
  constructor
  · simp only at h
    split at h
    · obtain ⟨_, -, h⟩ := bind_eq_ok.mp h
      cases h
      rfl
    · cases h
      rfl
  · intro scope hcovers
    cases scope with
    | engine => exact le_of_enforceLimit hengine hengineLimit
    | query id =>
      rw [show id = query from of_decide_eq_true hcovers]
      exact le_of_enforceLimit hquery hqueryLimit

theorem weight_eq (h : token.active = decide (token.bytes ≠ 0)) (scope : Scope) :
    weight scope token = if covers token.query scope then token.bytes else 0 := by
  by_cases hcovers : covers token.query scope = true <;>
    by_cases hbytes : token.bytes = 0 <;>
    simp [weight, h, hcovers, hbytes]

section

variable (usage : Scope → Usage) (token : Token) (scope : Scope)

theorem releasePending_eq : releasePending usage token scope =
      ⟨(usage scope).committed, (usage scope).pending - weight scope token⟩ := by
  by_cases hcovers : covers token.query scope = true <;> cases hactive : token.active <;>
    simp [releasePending, change, weight, hcovers, hactive]

theorem releaseCommitted_eq : releaseCommitted usage token scope =
      ⟨(usage scope).committed - weight scope token, (usage scope).pending⟩ := by
  by_cases hcovers : covers token.query scope = true <;> cases hactive : token.active <;>
    simp [releaseCommitted, change, weight, hcovers, hactive]

end

/-- A merge moves the weight of a charge, unless it moves it into an inactive charge. -/
theorem weight_merge (hquery : charge.query = other.query)
    (hmerge : charge.merge other = .ok merged) (scope : Scope) :
    weight scope merged = weight scope charge +
      if other.active && !charge.active then 0 else weight scope other := by
  rw [Token.merge_eq_ok hmerge]
  by_cases hcovers : covers other.query scope = true <;> cases hcharge : charge.active <;>
    cases hother : other.active <;> simp [weight, hquery, hcovers, hcharge, hother]

theorem retainEngine_eq (usage : Scope → Usage) (retained : Multiset Nat)
    (hactive : token.active = true) (scope : Scope) :
    ∃ given, releaseQueryCommitted usage token scope =
        ⟨(usage scope).committed - given, (usage scope).pending⟩ ∧
      retainedIn (token.bytes ::ₘ retained) scope + given =
        retainedIn retained scope + weight scope token := by
  cases scope with
  | engine =>
    refine ⟨0, if_neg nofun, ?_⟩
    simp [retainedIn, weight, covers, hactive, add_comm]
  | query id =>
    refine ⟨weight (.query id) token, ?_, rfl⟩
    by_cases hquery : id = token.query <;>
      simp [releaseQueryCommitted, weight, covers, hactive, hquery]

/-- A commit gives the unused bytes back. -/
theorem commitUsage_eq (usage : Scope → Usage) (htoken : token.active = decide (token.bytes ≠ 0))
    (hactual : actual ≤ token.bytes) (scope : Scope)
    (hbound : (usage scope).committed + weight scope token ≤ 2 ^ 64 - 1) :
    ∃ kept, weight scope ⟨token.query, actual, actual ≠ 0⟩ = kept ∧ kept ≤ weight scope token ∧
      commitUsage usage token actual scope =
        ⟨(usage scope).committed + kept, (usage scope).pending - weight scope token⟩ := by
  rw [weight_eq htoken] at hbound ⊢
  rw [weight_eq rfl]
  by_cases hcovers : covers token.query scope = true
  · rw [if_pos hcovers] at hbound
    simp only [if_pos hcovers]
    refine ⟨actual, rfl, hactual, ?_⟩
    by_cases hbytes : token.bytes = 0
    · have hzero : actual = 0 := by omega
      simp [commitUsage, change, hcovers, htoken, hbytes, hzero]
    · have hmin : (usage scope).committed + actual ≤ 2 ^ 64 - 1 := by omega
      simp only [commitUsage, change, hcovers, htoken, hbytes, ne_eq, not_false_eq_true,
        decide_true, if_true, min_eq_left hmin]
  · exact ⟨0, by simp [hcovers], Nat.zero_le _, by simp [commitUsage, change, hcovers]⟩

variable {s' : System} {leaks : Bool}

section

variable (h : Balanced config s) (hstep : Step config s s' leaks)
include h hstep

theorem Balanced.account_step (hleaks : leaks = false) (scope : Scope) :
    Account config s' scope := by
  obtain ⟨hlimit, hpending, hcommitted⟩ := h.account scope
  have hbound := limit_le config scope
  have hactive := h.active
  cases hstep with
  | reserve hreserve =>
    obtain ⟨rfl, hle⟩ := tryReserve_eq_ok hreserve
    have hle := hle scope
    constructor <;> simp only [total_cons, weight_eq, change] <;> split <;> simp_all <;> omega
  | @commit usage _ _ _ _ token _ _ hcommit =>
    obtain ⟨hactual, rfl⟩ := Token.commit_eq_ok hcommit
    simp only [total_cons] at hpending
    dsimp only at hlimit hcommitted
    obtain ⟨kept, hkept, hle, husage⟩ :=
      commitUsage_eq usage (hactive token (by simp)) hactual scope (by omega)
    constructor <;> simp only [husage, total_cons, hkept] <;> omega
  | dropReservation =>
    simp only [total_cons] at hpending
    dsimp only at hlimit hcommitted
    constructor <;> simp only [releasePending_eq] <;> omega
  | merge hquery hmerge =>
    have hweight := weight_merge hquery hmerge scope
    simp only [hleaks, Bool.false_eq_true, if_false] at hweight
    simp only [total_cons] at hcommitted
    refine ⟨hlimit, hpending, ?_⟩
    simp only [total_cons]
    omega
  | release =>
    simp only [total_cons] at hcommitted
    dsimp only at hlimit hpending
    constructor <;> simp only [releaseCommitted_eq] <;> omega
  | @retainEngine usage _ _ _ retained _ hcharge =>
    obtain ⟨given, husage, hretained⟩ := retainEngine_eq usage retained hcharge scope
    simp only [total_cons] at hcommitted
    dsimp only at hlimit hpending
    constructor <;> simp only [husage] <;> omega

/-- The calls that merge no bytes into an inactive charge keep the balance. -/
theorem Balanced.step (hleaks : leaks = false) : Balanced config s' := by
  refine ⟨h.account_step hstep hleaks, ?_⟩
  have hactive := h.active
  cases hstep with
  | reserve hreserve =>
    obtain ⟨rfl, -⟩ := tryReserve_eq_ok hreserve
    simpa using hactive
  | commit hcommit =>
    obtain ⟨-, rfl⟩ := Token.commit_eq_ok hcommit
    simp_all
  | @merge _ _ _ _ _ charge other _ hquery hmerge =>
    rw [Token.merge_eq_ok hmerge]
    have hcharge := hactive charge (by simp)
    cases hother : other.active <;> simp_all
  | _ => simp_all

/-- A merge of bytes into an inactive charge loses them. -/
theorem Balanced.not_conserved (hleaks : leaks = true) : ¬ Conserved config s' := by
  intro hconserved
  cases hstep with
  | @merge _ _ _ _ _ charge other _ hquery hmerge =>
    have hbefore := (h.account .engine).committed
    have hafter := (hconserved.account .engine).committed
    have hweight := weight_merge hquery hmerge .engine
    have hactive := h.active other (by simp)
    have hother := weight_eq hactive .engine
    obtain ⟨htrue, -⟩ := Bool.and_eq_true_iff.mp hleaks
    have hbytes : other.bytes ≠ 0 := of_decide_eq_true (hactive ▸ htrue)
    simp only [total_cons] at hbefore hafter
    simp only [hleaks, if_true] at hweight
    simp only [covers, if_true] at hother
    omega
  | _ => cases hleaks

end

/-! ## Runs -/

theorem Balanced.new (config : SpillConfig) : Balanced config .new where
  account := fun scope => by constructor <;> cases scope <;> simp [System.new, total, retainedIn]
  active := by simp [System.new]

theorem Balanced.trace {steps : List (System × Bool)} (h : Balanced config s)
    (htrace : Trace config s steps) :
    (∀ step ∈ steps, Conserved config step.1) ↔ ∀ step ∈ steps, step.2 = false := by
  induction htrace with
  | nil => simp
  | @cons s s' leaks rest hstep htrace ih =>
    rw [List.forall_mem_cons, List.forall_mem_cons]
    cases hleaks : leaks with
    | false =>
      have hnext := h.step hstep hleaks
      simp only [hnext.conserved, true_and]
      exact ih hnext
    | true => simp only [h.not_conserved hstep hleaks, Bool.true_eq_false, false_and]

/-- Along every run of calls of any number of queries, all accounts are conserved if and only if
no call merges bytes into a charge that is not active. -/
theorem spill_quota_is_conserved_iff (config : SpillConfig) (steps : List (System × Bool))
    (h : Trace config .new steps) :
    (∀ step ∈ steps, Conserved config step.1) ↔ ∀ step ∈ steps, step.2 = false :=
  (Balanced.new config).trace h

/-- No limits, and no free space is asked for. -/
def unlimited : SpillConfig := ⟨"spill", none, none, 0, fun _ => 0⟩

/-- A query reserves five bytes and commits three of them, reserves and commits ten more, and
merges the two charges. -/
theorem a_committed_reservation_is_conserved : ∃ steps last,
    Trace unlimited .new (steps ++ [(last, false)]) ∧ steps.length = 4 ∧
      last.charges = {⟨0, 13, true⟩} ∧ ∀ step ∈ steps ++ [(last, false)],
        Conserved unlimited step.1 := by
  have htrace := Trace.cons (@Step.reserve unlimited (fun _ => ⟨0, 0⟩) 0 5 0 0 0 0 5
      (.ok ⟨0, 0⟩) ⟨0, 5, true⟩ rfl) <|
    .cons (@Step.commit _ _ _ _ _ _ _ 3 ⟨0, 3, true⟩ rfl) <|
    .cons (@Step.reserve _ _ 5 15 _ _ _ 0 10 (.ok ⟨0, 0⟩) ⟨0, 10, true⟩ rfl) <|
    .cons (@Step.commit _ _ _ _ _ _ _ 10 ⟨0, 10, true⟩ rfl) <|
    .cons (@Step.merge _ _ _ _ _ _ _ _ ⟨0, 13, true⟩ rfl rfl) .nil
  exact ⟨[_, _, _, _], _, htrace, rfl, rfl,
    (spill_quota_is_conserved_iff _ _ htrace).mpr (by simp)⟩

/-- Five bytes that are merged into an empty charge stay committed for ever. -/
theorem a_merge_into_an_empty_charge_leaks : ∃ steps last,
    Trace unlimited .new (steps ++ [(last, false)]) ∧ last.reservations = 0 ∧ last.charges = 0 ∧
      last.retained = 0 ∧ (last.usage .engine).committed = 5 ∧
      (last.usage (.query 0)).committed = 5 := by
  refine ⟨[_, _, _, _, _], _,
    .cons (@Step.reserve _ _ 0 5 _ _ _ 0 5 (.ok ⟨0, 0⟩) ⟨0, 5, true⟩ rfl) <|
    .cons (@Step.commit _ _ _ _ _ _ _ 5 _ rfl) <|
    .cons (@Step.reserve _ _ 5 15 _ _ _ 0 10 (.ok ⟨0, 0⟩) ⟨0, 10, true⟩ rfl) <|
    .cons (@Step.commit _ _ _ _ _ _ _ 0 _ rfl) <|
    .cons (.merge rfl rfl) <| .cons .release .nil, rfl, rfl, rfl, rfl, rfl⟩

end RustDb.Runtime.Spill
