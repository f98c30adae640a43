import RustDb.Lib.Records

/-!
# Cutting CSV input into morsels

`datasource/csv_morsel.rs`.  The morselizer is fed the bytes of a file in chunks and
cuts them into morsels that end where a record ends.  Two scanners look for the ends: a
fast one, which searches for the next quote or line feed, and one that looks at every
byte, for files with an escape byte.

* `RecordMorselizer.push`, `RecordMorselizer.finish`: the two entry points.
* `csvFormat`: what a line feed outside quotes is, as an automaton over the bytes.
* `RecordMorselizer.Scanned`: what holds of a morselizer between two rounds of a scanner.
* `RecordMorselizer.Flow.Sound`: what one round of a scanner does.
-/

namespace RustDb.Datasource

open RustDb.Lib List Delimiter

/-- The byte `b'\n'`. -/
def lineFeed : UInt8 := 10

/-- `memchr::memchr`, by its contract: the index of the first byte that is the needle. -/
def memchr (needle : UInt8) (haystack : List UInt8) : Option Nat :=
  haystack.findIdx? fun b => b == needle

/-- `memchr::memchr2`, by its contract: the index of the first byte that is one of the two. -/
def memchr2 (needle1 needle2 : UInt8) (haystack : List UInt8) : Option Nat :=
  haystack.findIdx? fun b => b == needle1 || b == needle2

/-- Cuts a stream of CSV bytes into morsels of whole records.  `scan` is how far the buffer has been
read. -/
structure RecordMorselizer where
  buffer : List UInt8
  targetBytes : Nat
  quote : UInt8
  escape : Option UInt8
  skipHeader : Bool
  inQuotes : Bool
  scan : Nat
deriving DecidableEq, Repr

namespace RecordMorselizer

/-- A morselizer before the first byte. -/
def new (targetBytes : Nat) (quote : UInt8) (escape : Option UInt8) (skipHeader : Bool) :
    RecordMorselizer where
  buffer := []
  targetBytes := targetBytes
  quote := quote
  escape := escape
  skipHeader := skipHeader
  inQuotes := false
  scan := 0

/-- How a round of a scanner's loop ends: `continue` or `break`. -/
inductive Flow where
  | next (m : RecordMorselizer) (output : List (List UInt8))
  | stop (m : RecordMorselizer)
deriving DecidableEq, Repr

/-- The round of both scanners at a quote. -/
def atQuote (eof : Bool) (m : RecordMorselizer) : Flow :=
  if m.inQuotes = true ∧ m.buffer[m.scan + 1]? = some m.quote then
    .next { m with scan := m.scan + 2 } []
  else if m.scan + 1 = m.buffer.length ∧ eof = false then
    .stop m
  else
    .next { m with inQuotes := !m.inQuotes, scan := m.scan + 1 } []

/-- The round of both scanners at a line feed outside quotes. -/
def atLineFeed (m : RecordMorselizer) : Flow :=
  let scan := m.scan + 1
  if m.skipHeader then
    .next { m with buffer := m.buffer.drop scan, skipHeader := false, scan := 0 } []
  else if m.targetBytes ≤ scan then
    .next { m with buffer := m.buffer.drop scan, scan := 0 } [m.buffer.take scan]
  else
    .next { m with scan := scan } []

/-- The round of `scan_unescaped` once the search for its next byte is done. -/
def visit (eof : Bool) (m : RecordMorselizer) : Option Nat → Flow
  | none => .stop { m with scan := m.buffer.length }
  | some next =>
    let m := { m with scan := m.scan + next }
    if m.buffer[m.scan]? = some m.quote then m.atQuote eof else m.atLineFeed

/-- A round of `scan_unescaped`. -/
def unescapedRound (eof : Bool) (m : RecordMorselizer) : Flow :=
  if m.inQuotes then
    m.visit eof (memchr m.quote (m.buffer.drop m.scan))
  else if m.skipHeader ∨ m.targetBytes ≤ m.scan then
    m.visit eof (memchr2 m.quote lineFeed (m.buffer.drop m.scan))
  else
    let stop := min m.targetBytes m.buffer.length
    match memchr m.quote ((m.buffer.take stop).drop m.scan) with
    | none =>
      if stop ≠ 0 ∧ stop = m.targetBytes ∧ m.buffer[stop - 1]? = some lineFeed then
        .next { m with buffer := m.buffer.drop stop, scan := 0 } [m.buffer.take stop]
      else
        .next { m with scan := stop } []
    | some next => m.visit eof (some next)

/-- A round of `scan_with_escape`, which looks at one byte.  An escape at the end of the buffer
waits for the byte behind it. -/
def escapedRound (eof : Bool) (m : RecordMorselizer) : Flow :=
  match m.buffer[m.scan]? with
  | none => .stop m -- not reached: the loop runs while there is a byte
  | some byte =>
    if m.inQuotes = true ∧ m.escape = some byte then
      if m.scan + 1 = m.buffer.length ∧ eof = false then
        .stop m
      else
        .next { m with scan := min (m.scan + 2) m.buffer.length } []
    else if byte = m.quote then
      m.atQuote eof
    else if byte = lineFeed ∧ m.inQuotes = false then
      m.atLineFeed
    else
      .next { m with scan := m.scan + 1 } []

/-- The loop of a scanner, for at most `fuel` rounds. -/
def loop (round : RecordMorselizer → Flow) :
    Nat → RecordMorselizer → RecordMorselizer × List (List UInt8)
  | 0, m => (m, [])
  | fuel + 1, m =>
    if m.scan < m.buffer.length then
      match round m with
      | .stop m => (m, [])
      | .next m output =>
        let (m, rest) := loop round fuel m
        (m, output ++ rest)
    else
      (m, [])

-- Every round that goes on passes a byte, so there are never more rounds than bytes.
/-- The loop over the buffer, which ends when a round does not go on. -/
def scanWith (round : RecordMorselizer → Flow) (m : RecordMorselizer) :
    RecordMorselizer × List (List UInt8) :=
  loop round (m.buffer.length - m.scan) m

/-- The scan of a format whose quotes are doubled. -/
def scanUnescaped (eof : Bool) : RecordMorselizer → RecordMorselizer × List (List UInt8) :=
  scanWith (unescapedRound eof)

/-- The scan of a format with an escape byte. -/
def scanWithEscape (eof : Bool) : RecordMorselizer → RecordMorselizer × List (List UInt8) :=
  scanWith (escapedRound eof)

/-- `RecordMorselizer::scan`. -/
def scanBuffer (eof : Bool) (m : RecordMorselizer) : RecordMorselizer × List (List UInt8) :=
  if m.escape.isNone then m.scanUnescaped eof else m.scanWithEscape eof

/-- More bytes of the stream, and the morsels that end in them. -/
def push (m : RecordMorselizer) (bytes : List UInt8) :
    RecordMorselizer × List (List UInt8) :=
  scanBuffer false { m with buffer := m.buffer ++ bytes }

/-- The end of the stream: the last morsel needs no line feed. -/
def finish (m : RecordMorselizer) : List (List UInt8) :=
  let (m, morsels) := m.scanBuffer true
  if m.skipHeader then morsels
  else if m.buffer ≠ [] then morsels ++ [m.buffer]
  else morsels

/-- The morsels of a file that arrives in the given chunks. -/
def morsels : RecordMorselizer → List (List UInt8) → List (List UInt8)
  | m, [] => m.finish
  | m, chunk :: chunks =>
    let (m, output) := m.push chunk
    output ++ m.morsels chunks

end RecordMorselizer

/-! ## Line feeds outside quotes -/

/-- Where in the quotes a byte is. -/
inductive QuoteState where
  | outside
  | inside
  | escaped
deriving DecidableEq, Repr

namespace QuoteState

/-- The state after a byte: a quote opens and closes, and an escape byte inside quotes
takes away the meaning of the byte after it. -/
def step (quote : UInt8) (escape : Option UInt8) : QuoteState → UInt8 → QuoteState
  | outside, b => if b = quote then inside else outside
  | inside, b =>
    if escape = some b then escaped else if b = quote then outside else inside
  | escaped, _ => inside

end QuoteState

/-- A record ends at a line feed outside quotes. -/
def csvFormat (quote : UInt8) (escape : Option UInt8) (hquote : quote ≠ lineFeed) :
    Delimiter UInt8 where
  State := QuoteState
  start := .outside
  step := QuoteState.step quote escape
  ends s b := s = .outside ∧ b = lineFeed
  step_of_ends := by
    rintro s b ⟨rfl, rfl⟩
    exact if_neg hquote.symm

/-- What a search from the position `scan` on finds and passes. -/
theorem findIdx?_drop {p : UInt8 → Bool} {l : List UInt8} {scan : Nat} {found : Option Nat}
    (h : (l.drop scan).findIdx? p = found) :
    (∀ k, found = some k → ∃ b, l[scan + k]? = some b ∧ p b = true) ∧
      ∀ i b, scan ≤ i → (∀ k, found = some k → i < scan + k) → l[i]? = some b → p b = false := by
  have hget : ∀ i b, scan ≤ i → l[i]? = some b → (l.drop scan)[i - scan]? = some b := by
    intro i b hle hb
    rwa [getElem?_drop, Nat.add_sub_cancel' hle]
  cases found with
  | none =>
    refine ⟨nofun, fun i b hle _ hb => ?_⟩
    exact findIdx?_eq_none_iff.mp h b (mem_of_getElem? (hget i b hle hb))
  | some k =>
    obtain ⟨hk, hfound, hbefore⟩ := findIdx?_eq_some_iff_getElem.mp h
    constructor
    · rintro _ ⟨⟩
      exact ⟨_, by rw [← getElem?_drop, getElem?_eq_getElem hk], hfound⟩
    · intro i b hle hi hb
      obtain ⟨hlt, heq⟩ := List.getElem?_eq_some_iff.mp (hget i b hle hb)
      have := hi k rfl
      simpa [heq] using hbefore (i - scan) (by omega)

/-! ## What a scanner keeps -/

/-- The settings of a morselizer. -/
structure Settings where
  targetBytes : Nat
  quote : UInt8
  escape : Option UInt8
  skipHeader : Bool
  quote_ne : quote ≠ lineFeed

namespace Settings

/-- The record format of some settings. -/
def format (c : Settings) : Delimiter UInt8 :=
  csvFormat c.quote c.escape c.quote_ne

/-- The morselizer of some settings. -/
def start (c : Settings) : RecordMorselizer :=
  .new c.targetBytes c.quote c.escape c.skipHeader

variable {c : Settings} {l : List UInt8} {i : Nat} {b : UInt8}

theorem not_endsAt_of_byte (hb : l[i]? = some b) (hne : b ≠ lineFeed) :
    ¬ c.format.EndsAt l i := by
  rintro ⟨b', hb', -, hfeed⟩
  rw [hb] at hb'
  cases hb'
  exact hne hfeed

theorem not_endsAt_of_state {s : QuoteState} (hs : c.format.after (l.take i) = s)
    (hne : s ≠ .outside) : ¬ c.format.EndsAt l i := by
  rintro ⟨b, -, hout, -⟩
  exact hne (hs.symm.trans hout)

end Settings

namespace RecordMorselizer

/-- Where the ends of records begin to count. -/
def limit (m : RecordMorselizer) : Nat :=
  if m.skipHeader then 0 else m.targetBytes - 1

/-- The quotes of a morselizer between two rounds. -/
def quoteState (inQuotes : Bool) : QuoteState :=
  if inQuotes then .inside else .outside

/-- The number of bytes that are still to be scanned. -/
def remaining (m : RecordMorselizer) : Nat :=
  m.buffer.length - m.scan

/-- What was dropped in front of the morsels. -/
def HeaderRead (c : Settings) (header : List UInt8) (output : List (List UInt8))
    (m : RecordMorselizer) : Prop :=
  if m.skipHeader then c.skipHeader = true ∧ header = [] ∧ output = []
  else if c.skipHeader then c.format.Group 0 header
  else header = []

/-- The pushed bytes are a header, the morsels put out and the buffer, and the scan knows
the state at its position and has passed no end of a record that counts. -/
structure Scanned (c : Settings) (eof : Bool) (pushed : List UInt8)
    (output : List (List UInt8)) (m : RecordMorselizer) : Prop where
  target_eq : m.targetBytes = c.targetBytes
  quote_eq : m.quote = c.quote
  escape_eq : m.escape = c.escape
  scan_le : m.scan ≤ m.buffer.length
  state : c.format.after (m.buffer.take m.scan) = quoteState m.inQuotes ∨
    (eof = true ∧ m.scan = m.buffer.length)
  passed : ∀ i, m.limit ≤ i → i < m.scan → ¬ c.format.EndsAt m.buffer i
  pushed_eq : ∃ header, pushed = header ++ output.flatten ++ m.buffer ∧
    m.HeaderRead c header output
  groups : ∀ g ∈ output, c.format.Group (c.targetBytes - 1) g

/-- What a round does: it goes on with fewer bytes to scan, or it stops with a buffer in
which no record ends. -/
def Flow.Sound (c : Settings) (eof : Bool) (pushed : List UInt8)
    (output : List (List UInt8)) (bound : Nat) : Flow → Prop
  | .next m new => m.Scanned c eof pushed (output ++ new) ∧ m.remaining < bound
  | .stop m => m.Scanned c eof pushed output ∧ c.format.Open m.limit m.buffer

section Rounds

variable {c : Settings} {eof : Bool} {pushed : List UInt8} {output : List (List UInt8)}
  {m : RecordMorselizer} {bound n : Nat}

section

variable (h : m.Scanned c eof pushed output)
include h

theorem Scanned.state_eq (hlt : m.scan < m.buffer.length) :
    c.format.after (m.buffer.take m.scan) = quoteState m.inQuotes := by
  rcases h.state with hstate | ⟨-, hend⟩
  · exact hstate
  · omega

/-- The scan moves on to the position `n`. -/
theorem Scanned.move {inQuotes : Bool} (hn : n ≤ m.buffer.length)
    (hstate : c.format.after (m.buffer.take n) = quoteState inQuotes ∨
      (eof = true ∧ n = m.buffer.length))
    (hplain : ∀ i, m.limit ≤ i → m.scan ≤ i → i < n → ¬ c.format.EndsAt m.buffer i) :
    Scanned c eof pushed output { m with inQuotes := inQuotes, scan := n } := by
  refine { h with scan_le := hn, state := hstate, passed := fun i hi hlt => ?_ }
  by_cases hscan : i < m.scan
  · exact h.passed i hi hscan
  · exact hplain i hi (by omega) hlt

/-- The buffer up to its first end of a record. -/
theorem Scanned.group_take (hlimit : m.limit ≤ n) (hends : c.format.EndsAt m.buffer n)
    (hplain : ∀ i, m.limit ≤ i → m.scan ≤ i → i < n → ¬ c.format.EndsAt m.buffer i) :
    c.format.Group m.limit (m.buffer.take (n + 1)) := by
  have hlt := hends.lt_length
  have hlength : (m.buffer.take (n + 1)).length = n + 1 := by
    rw [length_take]
    omega
  have hsame : ∀ i ≤ n, c.format.EndsAt m.buffer i ↔ c.format.EndsAt (m.buffer.take (n + 1)) i := by
    intro i hi
    conv_lhs => rw [← take_append_drop (n + 1) m.buffer]
    exact endsAt_append_left (by omega)
  refine ⟨n, hlength, hlimit, (hsame n (by omega)).mp hends, ?_⟩
  intro i hi hin
  rw [← hsame i (by omega)]
  by_cases hscan : i < m.scan
  · exact h.passed i hi hscan
  · exact hplain i hi (by omega) hin

/-- A morsel is cut off in front of the buffer. -/
theorem Scanned.cut (hskip : m.skipHeader = false) (hquotes : m.inQuotes = false)
    (hgroup : c.format.Group m.limit (m.buffer.take n)) :
    Scanned c eof pushed (output ++ [m.buffer.take n])
      { m with buffer := m.buffer.drop n, scan := 0 } := by
  obtain ⟨header, hpushed, hheader⟩ := h.pushed_eq
  refine { h with
    scan_le := Nat.zero_le _
    state := .inl (by rw [take_zero, hquotes]; rfl)
    passed := nofun
    pushed_eq := ⟨header, by simp [hpushed], ?_⟩
    groups := forall_mem_append.mpr ⟨h.groups, forall_mem_singleton.mpr ?_⟩ }
  · simpa only [HeaderRead, hskip, Bool.false_eq_true, if_false] using hheader
  · simpa only [limit, hskip, h.target_eq, Bool.false_eq_true, if_false] using hgroup

/-- The header is dropped in front of the buffer. -/
theorem Scanned.dropHeader (hskip : m.skipHeader = true) (hquotes : m.inQuotes = false)
    (hgroup : c.format.Group m.limit (m.buffer.take n)) : Scanned c eof pushed output
      { m with buffer := m.buffer.drop n, skipHeader := false, scan := 0 } := by
  obtain ⟨header, hpushed, hheader⟩ := h.pushed_eq
  simp only [HeaderRead, hskip, if_true] at hheader
  obtain ⟨hasked, rfl, rfl⟩ := hheader
  refine { h with
    scan_le := Nat.zero_le _
    state := .inl (by rw [take_zero, hquotes]; rfl)
    passed := nofun
    pushed_eq := ⟨m.buffer.take n, by simp [hpushed], ?_⟩ }
  simpa only [HeaderRead, hasked, limit, hskip, Bool.false_eq_true, if_false, if_true] using hgroup

/-- A scan that has passed every byte has found no end of a record. -/
theorem Scanned.open_of_end (hend : m.buffer.length ≤ m.scan) :
    c.format.Open m.limit m.buffer := by
  intro i hi hends
  have hlt := hends.lt_length
  exact h.passed i hi (by omega) hends

/-- A round that puts out nothing. -/
theorem Scanned.next (hlt : m.buffer.length - m.scan < bound) :
    (Flow.next m []).Sound c eof pushed output bound :=
  ⟨by rwa [append_nil], hlt⟩

/-- A scan that stops in front of the last byte. -/
theorem Scanned.stop_at_last (hlast : m.scan + 1 = m.buffer.length)
    (hplain : ¬ c.format.EndsAt m.buffer m.scan) :
    (Flow.stop m).Sound c eof pushed output bound := by
  refine ⟨h, fun i hi hends => ?_⟩
  have hin := hends.lt_length
  by_cases hscan : i < m.scan
  · exact h.passed i hi hscan hends
  · obtain rfl : i = m.scan := by omega
    exact hplain hends

theorem atLineFeed_sound (hquotes : m.inQuotes = false)
    (hfeed : m.buffer[m.scan]? = some lineFeed) (hbound : m.remaining ≤ bound) :
    m.atLineFeed.Sound c eof pushed output bound := by
  have hlt : m.scan < m.buffer.length := (List.getElem?_eq_some_iff.mp hfeed).1
  have hstate : c.format.after (m.buffer.take m.scan) = QuoteState.outside := by
    rw [h.state_eq hlt, hquotes]
    rfl
  have hends : c.format.EndsAt m.buffer m.scan := ⟨lineFeed, hfeed, hstate, rfl⟩
  have hnone : ∀ i, m.limit ≤ i → m.scan ≤ i → i < m.scan → ¬ c.format.EndsAt m.buffer i := by
    intro i _ hle hi
    omega
  unfold remaining at hbound
  simp only [atLineFeed]
  split
  case isTrue hskip =>
    have hlimit : m.limit = 0 := if_pos hskip
    apply (h.dropHeader hskip hquotes (h.group_take (by omega) hends hnone)).next
    rw [length_drop]
    omega
  case isFalse hskip =>
    have hskip : m.skipHeader = false := by simpa using hskip
    have hlimit : m.limit = m.targetBytes - 1 := by simp [limit, hskip]
    split
    case isTrue htarget =>
      refine ⟨h.cut hskip hquotes (h.group_take (by omega) hends hnone), ?_⟩
      show (m.buffer.drop (m.scan + 1)).length - 0 < bound
      rw [length_drop]
      omega
    case isFalse htarget =>
      refine (h.move (by omega) (.inl ?_) ?_).next (by dsimp only; omega)
      · rw [after_take_succ hfeed, hstate, hquotes]
        exact if_neg c.quote_ne.symm
      · intro i hi hle hin
        omega

theorem atQuote_sound (hquote : m.buffer[m.scan]? = some m.quote)
    (hescape : m.inQuotes = true → c.escape ≠ some c.quote) (hbound : m.remaining ≤ bound) :
    (m.atQuote eof).Sound c eof pushed output bound := by
  have hlt : m.scan < m.buffer.length := (List.getElem?_eq_some_iff.mp hquote).1
  rw [h.quote_eq] at hquote
  have hstate := h.state_eq hlt
  have hplain : ¬ c.format.EndsAt m.buffer m.scan :=
    Settings.not_endsAt_of_byte hquote c.quote_ne
  have hnext : c.format.after (m.buffer.take (m.scan + 1)) = quoteState (!m.inQuotes) := by
    rw [after_take_succ hquote, hstate]
    cases hquotes : m.inQuotes with
    | false => exact if_pos rfl
    | true => exact (if_neg (hescape hquotes)).trans (if_pos rfl)
  unfold remaining at hbound
  unfold atQuote
  split
  case isTrue hdouble =>
    obtain ⟨hquotes, hsecond⟩ := hdouble
    rw [h.quote_eq] at hsecond
    have hlt' : m.scan + 1 < m.buffer.length := (List.getElem?_eq_some_iff.mp hsecond).1
    refine (h.move (by omega) (.inl ?_) ?_).next (by dsimp only; omega)
    · rw [after_take_succ hsecond, hnext, hquotes]
      exact if_pos rfl
    · intro i _ hle hin
      obtain rfl | rfl : i = m.scan ∨ i = m.scan + 1 := by omega
      · exact hplain
      · exact Settings.not_endsAt_of_byte hsecond c.quote_ne
  case isFalse hdouble =>
    split
    case isTrue hlast => exact h.stop_at_last hlast.1 hplain
    case isFalse hlast =>
      refine (h.move (by omega) (.inl hnext) ?_).next (by dsimp only; omega)
      intro i _ hle hin
      obtain rfl : i = m.scan := by omega
      exact hplain

section

variable (hlt : m.scan < m.buffer.length)
include hlt

/-- The scan skips a stretch in which the state stays the same and no record ends. -/
theorem Scanned.skip (hn : m.scan + n ≤ m.buffer.length)
    (hkeep : ∀ i b, m.scan ≤ i → i < m.scan + n → m.buffer[i]? = some b →
      QuoteState.step c.quote c.escape (quoteState m.inQuotes) b = quoteState m.inQuotes ∧
        (m.inQuotes = false → m.limit ≤ i → b ≠ lineFeed)) :
    Scanned c eof pushed output { m with scan := m.scan + n } := by
  have hstates : ∀ k ≤ n, c.format.after (m.buffer.take (m.scan + k)) = quoteState m.inQuotes :=
    after_take_add (h.state_eq hlt) fun i b hle hi hb => (hkeep i b hle hi hb).1
  refine h.move hn (.inl (hstates n (Nat.le_refl n))) ?_
  rintro i hi hle hin ⟨b, hb, hout, hfeed⟩
  have hstate := hstates (i - m.scan) (by omega)
  rw [Nat.add_sub_cancel' hle, hout] at hstate
  cases hquotes : m.inQuotes with
  | false => exact (hkeep i b hle hin hb).2 hquotes hi hfeed
  | true =>
    rw [hquotes] at hstate
    cases hstate

/-- A round of the fast scanner after its search, for a search that stops at the first
quote or at the first line feed that counts. -/
theorem visit_sound (hescape : c.escape = none) {found : Option Nat}
    (hfound : ∀ k, found = some k → m.buffer[m.scan + k]? = some c.quote ∨
      (m.inQuotes = false ∧ m.buffer[m.scan + k]? = some lineFeed))
    (hbefore : ∀ i b, m.scan ≤ i → (∀ k, found = some k → i < m.scan + k) →
      m.buffer[i]? = some b →
      b ≠ c.quote ∧ (m.inQuotes = false → m.limit ≤ i → b ≠ lineFeed)) :
    (m.visit eof found).Sound c eof pushed output m.remaining := by
  have hstep : ∀ b, b ≠ c.quote → QuoteState.step c.quote c.escape (quoteState m.inQuotes) b =
        quoteState m.inQuotes := by
    intro b hb
    cases m.inQuotes <;> simp [QuoteState.step, quoteState, hescape, hb]
  have hskip : ∀ n, m.scan + n ≤ m.buffer.length → (∀ k, found = some k → n ≤ k) →
      Scanned c eof pushed output { m with scan := m.scan + n } := by
    intro n hn hle
    refine h.skip hlt hn fun i b hi hin hb => ?_
    obtain ⟨hquote, hfeed⟩ := hbefore i b hi (fun k hk => by have := hle k hk; omega) hb
    exact ⟨hstep b hquote, hfeed⟩
  cases found with
  | none =>
    have hall := hskip (m.buffer.length - m.scan) (by omega) nofun
    rw [Nat.add_sub_cancel' h.scan_le] at hall
    exact ⟨hall, hall.open_of_end (le_refl _)⟩
  | some k =>
    have hbyte := hfound k rfl
    have hk : m.scan + k < m.buffer.length := by
      rcases hbyte with hb | ⟨-, hb⟩ <;> exact (List.getElem?_eq_some_iff.mp hb).1
    have hmoved := hskip k (by omega) (by rintro _ ⟨⟩; omega)
    have hbound : remaining { m with scan := m.scan + k } ≤ m.remaining := by
      show m.buffer.length - (m.scan + k) ≤ m.buffer.length - m.scan
      omega
    simp only [visit]
    split
    case isTrue hquote =>
      exact atQuote_sound hmoved hquote (fun _ => by simp [hescape]) hbound
    case isFalse hquote =>
      rw [h.quote_eq] at hquote
      obtain ⟨hquotes, hfeed⟩ := hbyte.resolve_left hquote
      exact atLineFeed_sound hmoved hquotes hfeed hbound

/-- A round of the fast scanner. -/
theorem unescapedRound_sound (hescape : c.escape = none) :
    (unescapedRound eof m).Sound c eof pushed output m.remaining := by
  unfold unescapedRound
  split
  case isTrue hquotes =>
    obtain ⟨hfound, hbefore⟩ := findIdx?_drop (rfl : memchr m.quote _ = _)
    rw [h.quote_eq] at *
    refine visit_sound h hlt hescape ?_ fun i b hle hi hb => ⟨?_, fun hout => ?_⟩
    · intro k hk
      obtain ⟨b, hb, heq⟩ := hfound k hk
      exact .inl (eq_of_beq heq ▸ hb)
    · simpa using hbefore i b hle hi hb
    · simp [hquotes] at hout
  case isFalse hquotes =>
    have hquotes : m.inQuotes = false := by simpa using hquotes
    split
    case isTrue hsearched =>
      obtain ⟨hfound, hbefore⟩ := findIdx?_drop (rfl : memchr2 m.quote lineFeed _ = _)
      rw [h.quote_eq] at *
      refine visit_sound h hlt hescape ?_ fun i b hle hi hb => ?_
      · intro k hk
        obtain ⟨b, hb, heq⟩ := hfound k hk
        simpa [hb, hquotes] using heq
      · have hne := hbefore i b hle hi hb
        simp only [Bool.or_eq_false_iff, beq_eq_false_iff_ne] at hne
        exact ⟨hne.1, fun _ _ => hne.2⟩
    case isFalse hsearched =>
      -- Below the target only quotes matter, up to the one byte that completes it.
      obtain ⟨hskip, htarget⟩ := not_or.mp hsearched
      have hskip : m.skipHeader = false := by simpa using hskip
      have hlimit : m.limit = m.targetBytes - 1 := by simp [limit, hskip]
      dsimp only
      split
      case h_1 hsearch =>
        have hquote : ∀ i b, m.scan ≤ i → i < min m.targetBytes m.buffer.length →
            m.buffer[i]? = some b → b ≠ c.quote := by
          intro i b hle hi hb
          rw [← getElem?_take_of_lt hi] at hb
          have hne := (findIdx?_drop hsearch).2 i b hle nofun hb
          rwa [beq_eq_false_iff_ne, h.quote_eq] at hne
        have hscanned : ∀ n, m.scan + n ≤ min m.targetBytes m.buffer.length →
            (∀ i b, m.limit ≤ i → i < m.scan + n → m.buffer[i]? = some b → b ≠ lineFeed) →
            Scanned c eof pushed output { m with scan := m.scan + n } := by
          intro n hn hfeeds
          refine h.skip hlt (by omega) fun i b hle hi hb => ⟨?_, fun _ hl => hfeeds i b hl hi hb⟩
          rw [hquotes]
          exact if_neg (hquote i b hle (by omega) hb)
        have hmin : m.scan < min m.targetBytes m.buffer.length := by omega
        split
        case isTrue hcut =>
          obtain ⟨-, hstop, hfeed⟩ := hcut
          have hprev := hscanned (min m.targetBytes m.buffer.length - 1 - m.scan) (by omega) (by
            intro i b hl hi
            omega)
          rw [Nat.add_sub_cancel' (by omega)] at hprev
          have hstate := hprev.state_eq (List.getElem?_eq_some_iff.mp hfeed).1
          rw [hquotes] at hstate
          have hgroup := hprev.group_take (by show m.limit ≤ _; omega)
            ⟨lineFeed, hfeed, hstate, rfl⟩ (by
              intro i hl _ hi
              change m.limit ≤ i at hl
              omega)
          rw [Nat.sub_add_cancel (by omega)] at hgroup
          refine ⟨h.cut hskip hquotes hgroup, ?_⟩
          show (m.buffer.drop _).length - 0 < m.buffer.length - m.scan
          rw [length_drop]
          omega
        case isFalse hcut =>
          have hnext := hscanned (min m.targetBytes m.buffer.length - m.scan) (by omega) (by
            intro i b hl hi hb hfeed
            have hlast : i = min m.targetBytes m.buffer.length - 1 := by omega
            refine hcut ⟨by omega, by omega, ?_⟩
            rw [← hlast, hb, hfeed])
          rw [Nat.add_sub_cancel' (by omega)] at hnext
          exact hnext.next (by dsimp only [remaining]; omega)
      case h_2 k hsearch =>
        obtain ⟨hfound, hbefore⟩ := findIdx?_drop hsearch
        rw [h.quote_eq] at *
        obtain ⟨b, hb, heq⟩ := hfound k rfl
        have hin : m.scan + k < min m.targetBytes m.buffer.length := by
          have := (List.getElem?_eq_some_iff.mp hb).1
          rw [length_take] at this
          omega
        rw [getElem?_take_of_lt hin, eq_of_beq heq] at hb
        refine visit_sound h hlt hescape (by rintro _ ⟨⟩; exact .inl hb) fun i b hle hi hb => ?_
        have hlt := hi k rfl
        rw [← getElem?_take_of_lt (lt_trans hlt hin)] at hb
        exact ⟨by simpa using hbefore i b hle hi hb, fun _ hl => by omega⟩

/-- A round of the scanner that knows escapes. -/
theorem escapedRound_sound : (escapedRound eof m).Sound c eof pushed output m.remaining := by
  have hstate := h.state_eq hlt
  unfold escapedRound
  split
  case h_1 hnone =>
    rw [getElem?_eq_none_iff] at hnone
    omega
  case h_2 byte hbyte =>
    split
    case isTrue hescape =>
      obtain ⟨hquotes, hescape⟩ := hescape
      rw [h.escape_eq] at hescape
      rw [hquotes] at hstate
      have hplain : ¬ c.format.EndsAt m.buffer m.scan :=
        Settings.not_endsAt_of_state hstate (by decide)
      split
      case isTrue hlast => exact h.stop_at_last hlast.1 hplain
      case isFalse hlast =>
        have hescaped : c.format.after (m.buffer.take (m.scan + 1)) = QuoteState.escaped := by
          rw [after_take_succ hbyte, hstate]
          exact if_pos hescape
        refine (h.move (by omega) ?_ ?_).next (by dsimp only [remaining]; omega)
        · by_cases hmore : m.scan + 1 < m.buffer.length
          · left
            rw [min_eq_left (by omega), hquotes,
              after_take_succ (getElem?_eq_getElem hmore), hescaped]
            rfl
          · right
            refine ⟨?_, by omega⟩
            have heof : eof ≠ false := fun heof => hlast ⟨by omega, heof⟩
            simpa using heof
        · intro i _ hle hin
          obtain rfl | rfl : i = m.scan ∨ i = m.scan + 1 := by omega
          · exact hplain
          · exact Settings.not_endsAt_of_state hescaped (by decide)
    case isFalse hescape =>
      split
      case isTrue hquote =>
        refine atQuote_sound h (hquote ▸ hbyte) ?_ (le_refl _)
        intro hquotes heq
        exact hescape ⟨hquotes, by rw [h.escape_eq, heq, hquote, h.quote_eq]⟩
      case isFalse hquote =>
        split
        case isTrue hfeed =>
          exact atLineFeed_sound h hfeed.2 (hfeed.1 ▸ hbyte) (le_refl _)
        case isFalse hfeed =>
          rw [h.quote_eq] at hquote
          refine (h.skip hlt (by omega) fun i b hle hi hb => ?_).next
            (by dsimp only [remaining]; omega)
          obtain rfl : i = m.scan := by omega
          cases hbyte.symm.trans hb
          refine ⟨?_, fun hquotes _ heq => hfeed ⟨heq, hquotes⟩⟩
          cases hquotes : m.inQuotes with
          | false => exact if_neg hquote
          | true =>
            have hne : c.escape ≠ some byte := fun heq =>
              hescape ⟨hquotes, h.escape_eq.trans heq⟩
            exact (if_neg hne).trans (if_neg hquote)

end

end

end Rounds

/-! ## Whole runs -/

section Runs

variable {c : Settings} {eof : Bool} {pushed : List UInt8} {output : List (List UInt8)}
  {m : RecordMorselizer}

/-- A scanner's loop keeps what its rounds keep, and it ends because nothing is left to
find and not for want of fuel. -/
theorem loop_sound {round : RecordMorselizer → Flow} {fuel : Nat}
    (hround : ∀ m output, m.Scanned c eof pushed output → m.scan < m.buffer.length →
      (round m).Sound c eof pushed output m.remaining)
    (h : m.Scanned c eof pushed output) (hfuel : m.remaining ≤ fuel) :
    (loop round fuel m).1.Scanned c eof pushed (output ++ (loop round fuel m).2) ∧
      c.format.Open (loop round fuel m).1.limit (loop round fuel m).1.buffer := by
  induction fuel generalizing m output with
  | zero =>
    rw [loop, append_nil]
    unfold remaining at hfuel
    exact ⟨h, h.open_of_end (by omega)⟩
  | succ fuel ih =>
    rw [loop]
    split
    case isTrue hlt =>
      have hsound := hround m output h hlt
      cases hflow : round m with
      | stop m' =>
        rw [hflow] at hsound
        rw [append_nil]
        exact hsound
      | next m' new =>
        rw [hflow] at hsound
        obtain ⟨hnext, hless⟩ := hsound
        have hrest := ih hnext (by omega)
        rw [append_assoc] at hrest
        exact hrest
    case isFalse hge =>
      rw [append_nil]
      exact ⟨h, h.open_of_end (by omega)⟩

theorem scanBuffer_sound (h : m.Scanned c eof pushed output) :
    (m.scanBuffer eof).1.Scanned c eof pushed (output ++ (m.scanBuffer eof).2) ∧
      c.format.Open (m.scanBuffer eof).1.limit (m.scanBuffer eof).1.buffer := by
  unfold scanBuffer
  split
  case isTrue hnone =>
    rw [h.escape_eq, Option.isNone_iff_eq_none] at hnone
    exact loop_sound (fun m output h hlt => unescapedRound_sound h hlt hnone) h (le_refl _)
  case isFalse =>
    exact loop_sound (fun m output h hlt => escapedRound_sound h hlt) h (le_refl _)

theorem Scanned.start : c.start.Scanned c false [] [] where
  target_eq := rfl
  quote_eq := rfl
  escape_eq := rfl
  scan_le := le_refl _
  state := .inl rfl
  passed := by
    intro i _ hi
    exact absurd hi (Nat.not_lt_zero i)
  pushed_eq := by
    refine ⟨[], rfl, ?_⟩
    cases hskip : c.skipHeader <;> simp [HeaderRead, Settings.start, new, hskip]
  groups := by simp

/-- More bytes at the end of the buffer change nothing about what was scanned. -/
theorem Scanned.append (h : m.Scanned c false pushed output) (bytes : List UInt8) :
    Scanned c false (pushed ++ bytes) output { m with buffer := m.buffer ++ bytes } := by
  obtain ⟨header, hpushed, hheader⟩ := h.pushed_eq
  have hle := h.scan_le
  refine { h with
    scan_le := by simp only [length_append]; omega
    state := .inl ?_
    passed := fun i hi (hlt : i < m.scan) => ?_
    pushed_eq := ⟨header, by rw [hpushed, append_assoc], hheader⟩ }
  · rw [take_append_of_le_length hle]
    exact h.state.resolve_right (by simp)
  · rw [endsAt_append_left (by omega)]
    exact h.passed i hi hlt

theorem Scanned.atEof (h : m.Scanned c false pushed output) :
    m.Scanned c true pushed output :=
  { h with state := .inl (h.state.resolve_right (by simp)) }

end Runs

end RecordMorselizer

/-- The morsels are what is left of the bytes after the header, cut at the first end of a
record that reaches the target, again and again. -/
inductive Framing (c : Settings) (bytes : List UInt8) : List (List UInt8) → Prop where
  | onlyHeader (hskip : c.skipHeader = true) (hopen : c.format.Open 0 bytes) :
      Framing c bytes []
  | cut (header : List UInt8) (groups : List (List UInt8)) (rest : List UInt8)
      (hbytes : bytes = header ++ (groups.flatten ++ rest))
      (hheader : if c.skipHeader then c.format.Group 0 header else header = [])
      (hgroups : ∀ g ∈ groups, c.format.Group (c.targetBytes - 1) g)
      (hrest : c.format.Open (c.targetBytes - 1) rest) :
      Framing c bytes (groups ++ if rest = [] then [] else [rest])

namespace RecordMorselizer

open Settings

variable {c : Settings} {pushed : List UInt8} {output : List (List UInt8)} {m : RecordMorselizer}

theorem finish_framing (h : m.Scanned c false pushed output) :
    Framing c pushed (output ++ m.finish) := by
  obtain ⟨hlast, hopen⟩ := scanBuffer_sound h.atEof
  obtain ⟨header, hpushed, hheader⟩ := hlast.pushed_eq
  rw [append_assoc] at hpushed
  unfold finish
  dsimp only
  by_cases hskip : (m.scanBuffer true).1.skipHeader = true
  · -- the header never ended, so nothing was put out
    simp only [HeaderRead, hskip, if_true] at hheader
    obtain ⟨hasked, rfl, hnone⟩ := hheader
    obtain ⟨rfl, hnew⟩ := append_eq_nil_iff.mp hnone
    rw [if_pos hskip, hnew]
    refine .onlyHeader hasked ?_
    rw [hpushed, hnew]
    simpa [limit, hskip] using hopen
  · have hlimit : (m.scanBuffer true).1.limit = c.targetBytes - 1 := by
      rw [limit, if_neg hskip, hlast.target_eq]
    rw [hlimit] at hopen
    rw [HeaderRead, if_neg hskip] at hheader
    have hframing := Framing.cut header _ _ hpushed hheader hlast.groups hopen
    rw [if_neg hskip]
    by_cases hrest : (m.scanBuffer true).1.buffer = []
    · rw [if_pos hrest, append_nil] at hframing
      rwa [if_neg (not_not.mpr hrest)]
    · rw [if_neg hrest, append_assoc] at hframing
      rwa [if_pos hrest]

/-- Pushing chunk after chunk and finishing frames the bytes of all chunks. -/
theorem morsels_framing (h : m.Scanned c false pushed output) (chunks : List (List UInt8)) :
    Framing c (pushed ++ chunks.flatten) (output ++ m.morsels chunks) := by
  induction chunks generalizing m pushed output with
  | nil =>
    rw [flatten_nil, append_nil]
    exact finish_framing h
  | cons chunk chunks ih =>
    have hpush := (scanBuffer_sound (h.append chunk)).1
    have hrest := ih hpush
    rw [append_assoc, append_assoc] at hrest
    exact hrest

end RecordMorselizer

namespace Framing

variable {c : Settings} {bytes : List UInt8} {morsels morsels' : List (List UInt8)}

/-- The bytes determine the morsels. -/
theorem unique (h : Framing c bytes morsels) (h' : Framing c bytes morsels') :
    morsels = morsels' := by
  cases h with
  | onlyHeader hskip hopen =>
    cases h' with
    | onlyHeader => rfl
    | cut header groups rest hbytes hheader _ _ =>
      rw [if_pos hskip] at hheader
      rw [hbytes] at hopen
      exact absurd hopen hheader.not_open
  | cut header groups rest hbytes hheader hgroups hrest =>
    cases h' with
    | onlyHeader hskip hopen =>
      rw [if_pos hskip] at hheader
      rw [hbytes] at hopen
      exact absurd hopen hheader.not_open
    | cut header' groups' rest' hbytes' hheader' hgroups' hrest' =>
      have hbody : groups.flatten ++ rest = groups'.flatten ++ rest' := by
        rw [hbytes] at hbytes'
        cases hskip : c.skipHeader with
        | true =>
          rw [if_pos hskip] at hheader hheader'
          exact (hheader.eq_of_append hheader' hbytes').2
        | false =>
          rw [if_neg (by simp [hskip])] at hheader hheader'
          rwa [hheader, hheader'] at hbytes'
      obtain ⟨rfl, rfl⟩ := groups_unique hgroups hrest hgroups' hrest' hbody
      rfl

theorem flatten_eq (hskip : c.skipHeader = false) (h : Framing c bytes morsels) :
    morsels.flatten = bytes := by
  cases h with
  | onlyHeader hskip' => simp [hskip] at hskip'
  | cut header groups rest hbytes hheader _ _ =>
    rw [if_neg (by simp [hskip])] at hheader
    rw [hbytes, hheader]
    split <;> simp_all

/-- With a header the morsels hold what follows the first end of a record. -/
theorem flatten_eq_drop (hskip : c.skipHeader = true) (h : Framing c bytes morsels) {n : Nat}
    (hn : c.format.FirstEnd 0 bytes n) : morsels.flatten = bytes.drop (n + 1) := by
  cases h with
  | onlyHeader _ hopen => exact absurd hn.2.1 (hopen n (Nat.zero_le n))
  | cut header groups rest hbytes hheader _ _ =>
    rw [if_pos hskip] at hheader
    have hstart : c.format.after ([] : List UInt8) = c.format.start := rfl
    have hfirst := hheader.firstEnd_append (r := groups.flatten ++ rest) hstart
    simp only [nil_append, length_nil, zero_add, ← hbytes] at hfirst
    have hpos := length_pos_iff.mpr hheader.ne_nil
    have hlast := hn.unique hfirst
    have hlength : n + 1 = header.length := by omega
    rw [hlength, hbytes, drop_left]
    split <;> simp_all

theorem eq_nil (hskip : c.skipHeader = true) (h : Framing c bytes morsels)
    (hnone : ∀ n, ¬ c.format.EndsAt bytes n) : morsels = [] := by
  cases h with
  | onlyHeader => rfl
  | cut header groups rest hbytes hheader _ _ =>
    rw [if_pos hskip] at hheader
    rw [hbytes] at hnone
    exact absurd (fun n _ => hnone n) hheader.not_open

/-- Every morsel but the last ends at the first end of a record that reaches the target,
counted from where the morsel starts. -/
theorem firstEnd (h : Framing c bytes morsels) {i : Nat} (hi : i + 1 < morsels.length) :
    c.format.FirstEnd
      (bytes.length - (morsels.drop i).flatten.length + (c.targetBytes - 1)) bytes
      (bytes.length - (morsels.drop (i + 1)).flatten.length - 1) := by
  cases h with
  | onlyHeader => simp at hi
  | cut header groups rest hbytes hheader hgroups _ =>
    have hlt : i < groups.length := by
      rw [length_append] at hi
      split at hi <;> simp at hi <;> omega
    have hafter : c.format.after header = c.format.start := by
      split at hheader
      · exact hheader.after_eq
      · rw [hheader]
        rfl
    -- What lies before the morsel, and what lies after it.
    obtain ⟨front, hfront⟩ : ∃ front, front = header ++ (groups.take i).flatten := ⟨_, rfl⟩
    obtain ⟨back, hback⟩ : ∃ back, back = (groups.drop (i + 1)).flatten ++ rest := ⟨_, rfl⟩
    have hstart : c.format.after front = c.format.start := by
      rw [hfront, after_append_of_start hafter]
      exact after_flatten fun g hg => hgroups g (mem_of_mem_take hg)
    have hsplit : bytes = front ++ groups[i] ++ back := by
      have hgroups_eq : groups.flatten =
          (groups.take i).flatten ++ (groups[i] ++ (groups.drop (i + 1)).flatten) := by
        rw [← flatten_cons, ← drop_eq_getElem_cons hlt, ← flatten_append, take_append_drop]
      rw [hbytes, hgroups_eq, hfront, hback]
      simp
    have hrest : ((groups ++ if rest = [] then [] else [rest]).drop (i + 1)).flatten = back := by
      rw [drop_append_of_le_length (by omega), flatten_append, hback]
      split <;> simp_all
    have hhere : ((groups ++ if rest = [] then [] else [rest]).drop i).flatten =
        groups[i] ++ back := by
      rw [drop_append_of_le_length (by omega), drop_eq_getElem_cons hlt,
        cons_append, flatten_cons, ← hrest,
        drop_append_of_le_length (by omega)]
    have hends := (hgroups groups[i] (getElem_mem hlt)).firstEnd_append (r := back) hstart
    rw [hhere, hrest, hsplit]
    have hleft : (front ++ groups[i] ++ back).length - (groups[i] ++ back).length =
        front.length := by
      simp only [length_append]
      omega
    have hright : (front ++ groups[i] ++ back).length - back.length - 1 =
        front.length + groups[i].length - 1 := by
      simp only [length_append]
      omega
    rwa [hleft, hright]

end Framing

/-! ## The two scanners on input without escapes -/

section WithoutEscape

variable {quote e : UInt8} {hquote : quote ≠ lineFeed} {l : List UInt8} {limit : Nat}

section

variable (hl : e ∉ l)
include hl

theorem after_eq_of_notMem :
    (csvFormat quote (some e) hquote).after l = (csvFormat quote none hquote).after l := by
  apply foldl_ext
  intro s b hb
  have hne : b ≠ e := by
    intro heq
    exact hl (heq ▸ hb)
  show QuoteState.step quote (some e) s b = QuoteState.step quote none s b
  cases s <;> simp [QuoteState.step, hne.symm]

theorem endsAt_iff_of_notMem (i : Nat) : (csvFormat quote (some e) hquote).EndsAt l i ↔
      (csvFormat quote none hquote).EndsAt l i := by
  have htake : e ∉ l.take i := fun h => hl (mem_of_mem_take h)
  unfold Delimiter.EndsAt
  rw [after_eq_of_notMem htake]
  rfl

theorem group_iff_of_notMem : (csvFormat quote (some e) hquote).Group limit l ↔
      (csvFormat quote none hquote).Group limit l := by
  simp only [Delimiter.Group, Delimiter.FirstEnd, endsAt_iff_of_notMem hl]

theorem open_iff_of_notMem : (csvFormat quote (some e) hquote).Open limit l ↔
      (csvFormat quote none hquote).Open limit l := by
  simp only [Delimiter.Open, endsAt_iff_of_notMem hl]

/-- A framing under the escape byte is one without it. -/
theorem Framing.without_escape {target : Nat} {skip : Bool} {morsels : List (List UInt8)}
    (h : Framing ⟨target, quote, some e, skip, hquote⟩ l morsels) :
    Framing ⟨target, quote, none, skip, hquote⟩ l morsels := by
  cases h with
  | onlyHeader hskip hopen => exact .onlyHeader hskip ((open_iff_of_notMem hl).mp hopen)
  | cut header groups rest hbytes hheader hgroups hrest =>
    rw [hbytes, mem_append, mem_append] at hl
    obtain ⟨hnotHeader, hnot⟩ := not_or.mp hl
    obtain ⟨hnotGroups, hnotRest⟩ := not_or.mp hnot
    refine .cut header groups rest hbytes ?_ ?_ ((open_iff_of_notMem hnotRest).mp hrest)
    · cases skip with
      | true => exact (group_iff_of_notMem hnotHeader).mp hheader
      | false => exact hheader
    · intro g hg
      have hnotGroup : e ∉ g := fun he => hnotGroups (mem_flatten.mpr ⟨g, hg, he⟩)
      exact (group_iff_of_notMem hnotGroup).mp (hgroups g hg)

end

end WithoutEscape

/-- Framing loses nothing and does not depend on how the bytes arrive, whatever the escape
byte is. -/
theorem csv_morsels_frame_records (target : Nat) (quote : UInt8) (escape : Option UInt8)
    (skip : Bool) (hquote : quote ≠ lineFeed) (chunks : List (List UInt8)) :
    let format := csvFormat quote escape hquote
    let pushed := chunks.flatten
    let morsels := (RecordMorselizer.new target quote escape skip).morsels chunks
    (∀ chunks' : List (List UInt8), chunks'.flatten = pushed →
      (RecordMorselizer.new target quote escape skip).morsels chunks' = morsels) ∧
    (skip = false → morsels.flatten = pushed) ∧
    (skip = true → ∀ n, format.FirstEnd 0 pushed n → morsels.flatten = pushed.drop (n + 1)) ∧
    (skip = true → (∀ n, ¬ format.EndsAt pushed n) → morsels = []) ∧
    (∀ i, i + 1 < morsels.length →
      format.FirstEnd (pushed.length - (morsels.drop i).flatten.length + (target - 1)) pushed
        (pushed.length - (morsels.drop (i + 1)).flatten.length - 1)) ∧
    ((∀ e, escape = some e → e ∉ pushed) →
      (RecordMorselizer.new target quote none skip).morsels chunks = morsels) := by
  intro format pushed morsels
  have hframing : ∀ escape (chunks : List (List UInt8)),
      Framing ⟨target, quote, escape, skip, hquote⟩ chunks.flatten
        ((RecordMorselizer.new target quote escape skip).morsels chunks) := by
    intro escape chunks
    exact RecordMorselizer.morsels_framing RecordMorselizer.Scanned.start chunks
  have h := hframing escape chunks
  refine ⟨?_, h.flatten_eq, ?_, ?_, ?_, ?_⟩
  · intro chunks' hsame
    have h' := hframing escape chunks'
    rw [hsame] at h'
    exact h'.unique h
  · intro hskip n hn
    exact h.flatten_eq_drop hskip hn
  · intro hskip hnone
    exact h.eq_nil hskip hnone
  · intro i hi
    exact h.firstEnd hi
  · intro hnot
    cases escape with
    | none => rfl
    | some e => exact (hframing none chunks).unique (h.without_escape (hnot e rfl))

/-- A quoted line feed and a doubled quote, with a backslash as the escape byte. -/
theorem csv_morsels_of_quoted_records :
    let chunks : List (List UInt8) := [[49, 44, 34, 97, 10], [98, 34, 34], [34, 10, 50]]
    (34 : UInt8) ≠ lineFeed ∧
    (RecordMorselizer.new 1 34 (some 92) false).morsels chunks =
      [[49, 44, 34, 97, 10, 98, 34, 34, 34, 10], [50]] ∧
    ((RecordMorselizer.new 1 34 (some 92) false).morsels chunks).flatten = chunks.flatten := by
  intro chunks
  have hquote : (34 : UInt8) ≠ lineFeed := by decide
  refine ⟨hquote, by decide +kernel, ?_⟩
  exact (csv_morsels_frame_records 1 34 (some 92) false hquote chunks).2.1 rfl

end RustDb.Datasource
