import RustDb.Execution.Error
import RustDb.Lib.Wildcard

/-!
# LIKE

`execution/expr/like.rs`.  A pattern is turned into tokens; a pattern without `_` is
matched by its literal segments, any other one by a table over the tokens.  Strings are
lists of Unicode scalar values.

* `CompiledLike.new`, `CompiledLike.isMatch`: the compiled matcher and its strategies.
* `evaluate`, `evaluateLiteral`: a column of patterns, and one literal pattern.
* `LikeMatches`: what a pattern matches, character by character.
-/

namespace RustDb.Execution

open RustDb.Lib List Option Wildcard

/-- A character of a pattern, `_` or `%`. -/
abbrev LikeToken := Wildcard Char

/-- A column: a string array, or an array of another type. -/
inductive ArrayRef where
  | strings (rows : List (Option (List Char)))
  | other (dataType : String) (length : Nat)
deriving DecidableEq, Repr

/-- The number of rows. -/
def ArrayRef.length : ArrayRef → Nat
  | strings rows => rows.length
  | other _ length => length

/-- The rows of a text column; another type is an internal error. -/
def strings (array : ArrayRef) (role : String) : Except Error (List (Option (List Char))) :=
  match array with
  | .strings rows => .ok rows
  | .other dataType _ => .error (.internal s!"LIKE {role} has type {dataType}")

/-! ## Tokens -/

/-- The error of a pattern that escapes nothing. -/
def danglingEscape : Error :=
  .invalidArgument "LIKE pattern ends with its ESCAPE character"

/-- The token of a character that is not the escape character. -/
def plainToken (character : Char) : LikeToken :=
  if character = '%' then .any
  else if character = '_' then .one
  else .literal character

/-- The loop of `like_tokens`. -/
def likeTokensFrom (escape : Option Char) :
    List Char → List LikeToken → Except Error (List LikeToken)
  | [], tokens => .ok tokens
  | character :: characters, tokens =>
    if escape = some character then
      match characters with
      | [] => .error danglingEscape
      | next :: characters =>
        likeTokensFrom escape characters (push tokens (.literal next))
    else
      likeTokensFrom escape characters (push tokens (plainToken character))

/-- The tokens of a pattern. -/
def likeTokens (pattern : List Char) (escape : Option Char) :
    Except Error (List LikeToken) :=
  likeTokensFrom escape pattern []

/-! ## The table -/

/-- `MatchWorkspace`, with its cells `0` and `1` as truth values. -/
structure MatchWorkspace where
  previous : List Bool
  current : List Bool
deriving DecidableEq, Repr

namespace MatchWorkspace

/-- Two rows of flags, one more than there are tokens. -/
def new (tokens : Nat) : MatchWorkspace where
  previous := replicate (tokens + 1) false
  current := replicate (tokens + 1) false

/-- `row.fill(0)`. -/
def clear (row : List Bool) : List Bool :=
  row.map fun _ => false

/-- The loop over the tokens that writes the cell after each one. -/
def fillRow (cell : Nat → LikeToken → List Bool → Bool) :
    List LikeToken → Nat → List Bool → List Bool
  | [], _, row => row
  | token :: tokens, index, row =>
    fillRow cell tokens (index + 1) (row.set (index + 1) (cell index token row))

/-- The cell of the row for the empty string. -/
def firstCell (index : Nat) (token : LikeToken) (row : List Bool) : Bool :=
  decide (token = .any) && row.getD index false

/-- The cell of the row after `value`. -/
def nextCell (value : Char) (previous : List Bool) (index : Nat) (token : LikeToken)
    (row : List Bool) : Bool :=
  match token with
  | .any => previous.getD (index + 1) false || row.getD index false
  | .one => previous.getD index false
  | .literal expected => previous.getD index false && decide (value = expected)

/-- The loop over the characters. -/
def readChars (tokens : List LikeToken) : List Char → MatchWorkspace → MatchWorkspace
  | [], w => w
  | value :: values, w =>
    let current := fillRow (nextCell value w.previous) tokens 0 (clear w.current)
    readChars tokens values { previous := current, current := w.previous }

/-- `MatchWorkspace::matches`. -/
def matchTokens (w : MatchWorkspace) (value : List Char) (tokens : List LikeToken) :
    Bool × MatchWorkspace :=
  let previous := fillRow firstCell tokens 0 ((clear w.previous).set 0 true)
  let w := readChars tokens value { w with previous := previous }
  (w.previous.getD tokens.length false, w)

end MatchWorkspace

/-! ## Compiled patterns -/

/-- `CompiledLike`: `Exact`, `Prefix`, `Suffix`, `Contains`, `Segments`, `Wildcard`. -/
inductive CompiledLike where
  | exactly (expected : List Char)
  | startsWith (expected : List Char)
  | endsWith (expected : List Char)
  | contains (expected : List Char)
  | segments (parts : List (List Char)) (leadingAny trailingAny : Bool)
  | wildcard (tokens : List LikeToken)
deriving DecidableEq, Repr

/-- The loop of `from_literal_segments`: the runs of literals that are not empty. -/
def collectSegments : List LikeToken → List Char → List (List Char)
  | [], current => if current = [] then [] else [current]
  | .literal value :: tokens, current => collectSegments tokens (current ++ [value])
  | .any :: tokens, current =>
    if current = [] then collectSegments tokens []
    else current :: collectSegments tokens []
  | .one :: tokens, current => collectSegments tokens current -- handled by the table

/-- The search for the parts between the first and the last one. -/
def findParts (value : List Char) : List (List Char) → Nat → Option Nat
  | [], position => some position
  | part :: parts, position =>
    if position ≤ value.length then
      match findSublist part (value.drop position) with
      | some found => findParts value parts (position + found + part.length)
      | none => none
    else none

/-- The end of `segments_match`, after its first part. -/
def searchParts (value : List Char) (middle : List (List Char)) (last : List Char)
    (trailingAny : Bool) (position : Nat) : Bool :=
  match findParts value middle position with
  | none => false
  | some position =>
    if trailingAny then true
    else
      decide (last.length ≤ value.length) &&
        decide (position ≤ value.length - last.length) && last.isSuffixOf value

/-- The parts between the `%` are found one after the other, the first and the last at the ends
unless a `%` stands there. -/
def segmentsMatch (value : List Char) (parts : List (List Char))
    (leadingAny trailingAny : Bool) : Bool :=
  if leadingAny = false ∧ (parts.headD []).isPrefixOf value = false then false
  else
    let position := if leadingAny then 0 else (parts.headD []).length
    let firstMiddle := if leadingAny then 0 else 1
    let middleEnd := parts.length - (if trailingAny then 0 else 1)
    searchParts value ((parts.take middleEnd).drop firstMiddle) (parts.getLastD [])
      trailingAny position

namespace CompiledLike

/-- The end of `from_literal_segments`: the strategy for the parts. -/
def ofParts (parts : List (List Char)) (leadingAny trailingAny : Bool) : CompiledLike :=
  match parts with
  | [] => .contains []
  | [value] =>
    match leadingAny, trailingAny with
    | false, false => .exactly value
    | false, true => .startsWith value
    | true, false => .endsWith value
    | true, true => .contains value
  | parts => .segments parts leadingAny trailingAny

/-- The pattern of tokens without `_`: each shape has its own search. -/
def fromLiteralSegments (tokens : List LikeToken) : CompiledLike :=
  if tokens = [] then .exactly []
  else
    ofParts (collectSegments tokens []) (decide (tokens.head? = some .any))
      (decide (tokens.getLast? = some .any))

/-- A pattern is compiled once for all rows. -/
def new (pattern : List Char) (escape : Option Char) : Except Error CompiledLike := do
  let tokens ← likeTokens pattern escape
  if .one ∈ tokens then
    return .wildcard tokens
  return fromLiteralSegments tokens

/-- How many flags the workspace needs for a pattern. -/
def wildcardTokens : CompiledLike → Nat
  | .wildcard tokens => tokens.length
  | _ => 0

/-- Whether a text matches; a pattern with `_` uses the workspace. -/
def isMatch (compiled : CompiledLike) (value : List Char) (workspace : MatchWorkspace) :
    Bool × MatchWorkspace :=
  match compiled with
  | .exactly expected => (decide (value = expected), workspace)
  | .startsWith expected => (expected.isPrefixOf value, workspace)
  | .endsWith expected => (expected.isSuffixOf value, workspace)
  | .contains expected => ((findSublist expected value).isSome, workspace)
  | .segments parts leadingAny trailingAny =>
    (segmentsMatch value parts leadingAny trailingAny, workspace)
  | .wildcard tokens => workspace.matchTokens value tokens

end CompiledLike

/-- `like::matches`. -/
def matchesPattern (value pattern : List Char) (escape : Option Char) :
    Except Error Bool := do
  let compiled ← CompiledLike.new pattern escape
  let workspace := MatchWorkspace.new compiled.wildcardTokens
  return (compiled.isMatch value workspace).1

/-- `LIKE` on a row whose pattern is no constant; a null on either side gives null. -/
def evaluateRow (negated : Bool) (escape : Option Char) :
    Option (List Char) → Option (List Char) → Except Error (Option Bool)
  | some value, some pattern => do
    let matched ← matchesPattern value pattern escape
    return some (matched ^^ negated)
  | _, _ => .ok none

/-- `like::evaluate`. -/
def evaluate (values patterns : ArrayRef) (negated : Bool) (escape : Option Char) :
    Except Error (List (Option Bool)) := do
  let values ← strings values "input"
  let patterns ← strings patterns "pattern"
  (values.zip patterns).mapM fun row => evaluateRow negated escape row.1 row.2

/-- The rows of `evaluate_literal`, which share one workspace. -/
def matchRows (compiled : CompiledLike) (negated : Bool) :
    List (Option (List Char)) → MatchWorkspace → List (Option Bool)
  | [], _ => []
  | none :: rows, workspace => none :: matchRows compiled negated rows workspace
  | some value :: rows, workspace =>
    let (matched, workspace) := compiled.isMatch value workspace
    some (matched ^^ negated) :: matchRows compiled negated rows workspace

/-- `like::evaluate_literal`. -/
def evaluateLiteral (values : ArrayRef) (pattern : List Char) (negated : Bool)
    (escape : Option Char) : Except Error (List (Option Bool)) := do
  let values ← strings values "input"
  if values.countP (·.isNone) = values.length then
    return replicate values.length none
  let compiled ← CompiledLike.new pattern escape
  return matchRows compiled negated values (MatchWorkspace.new compiled.wildcardTokens)

/-! ## What LIKE means -/

/-- The value matches the pattern: `%` stands for any sequence, `_` for one character, and
the escape character makes the next one literal. -/
def LikeMatches (escape : Option Char) : List Char → List Char → Prop
  | [], value => value = []
  | character :: pattern, value =>
    if escape == some character then
      match pattern with
      | [] => False
      | next :: pattern => ∃ rest, value = next :: rest ∧ LikeMatches escape pattern rest
    else if character = '%' then
      ∃ skipped rest, value = skipped ++ rest ∧ LikeMatches escape pattern rest
    else if character = '_' then
      ∃ skipped rest, value = skipped :: rest ∧ LikeMatches escape pattern rest
    else
      ∃ rest, value = character :: rest ∧ LikeMatches escape pattern rest

/-- The pattern ends with an escape character that escapes nothing. -/
def endsWithEscape (escape : Option Char) : List Char → Bool
  | [] => false
  | character :: pattern =>
    if escape = some character then
      match pattern with
      | [] => true
      | _ :: pattern => endsWithEscape escape pattern
    else
      endsWithEscape escape pattern

/-! ## The tokens of a pattern -/

section Tokens

variable {escape : Option Char} {pattern v : List Char} {tokens : List LikeToken}
  {rest : List Char → Prop}

/-- A token written at the end is matched after the tokens before it. -/
theorem exists_push_iff {t : LikeToken} :
    (∃ x y, v = x ++ y ∧ Matches (push tokens t) x ∧ rest y) ↔
      ∃ x y, v = x ++ y ∧ Matches tokens x ∧
        ∃ a b, y = a ++ b ∧ Matches [t] a ∧ rest b := by
  have hpush : ∀ x, Matches (push tokens t) x ↔
      Matches (tokens ++ [t]) x := by
    intro x
    rw [← matches_push, append_nil]
  simp only [hpush, matches_append]
  constructor
  · rintro ⟨_, y, rfl, ⟨a, b, rfl, ha, hb⟩, hy⟩
    exact ⟨a, b ++ y, append_assoc .., ha, b, y, rfl, hb, hy⟩
  · rintro ⟨x, _, rfl, hx, a, b, rfl, ha, hb⟩
    exact ⟨x ++ a, b, (append_assoc ..).symm, ⟨x, a, rfl, hx, ha⟩, hb⟩

variable {c : Char}

theorem exists_literal_iff :
    (∃ a b, v = a ++ b ∧ Matches [.literal c] a ∧ rest b) ↔
      ∃ b, v = c :: b ∧ rest b := by
  constructor
  · rintro ⟨_, b, rfl, ⟨_, rfl, rfl⟩, hb⟩
    exact ⟨b, rfl, hb⟩
  · rintro ⟨b, rfl, hb⟩
    exact ⟨[c], b, rfl, ⟨[], rfl, rfl⟩, hb⟩

theorem exists_one_iff :
    (∃ a b, v = a ++ b ∧ Matches [.one] a ∧ rest b) ↔
      ∃ c b, v = c :: b ∧ rest b := by
  constructor
  · rintro ⟨_, b, rfl, ⟨c, _, rfl, rfl⟩, hb⟩
    exact ⟨c, b, rfl, hb⟩
  · rintro ⟨c, b, rfl, hb⟩
    exact ⟨[c], b, rfl, ⟨c, [], rfl, rfl⟩, hb⟩

theorem exists_any_iff :
    (∃ a b, v = a ++ b ∧ Matches [.any] a ∧ rest b) ↔
      ∃ a b, v = a ++ b ∧ rest b := by
  constructor
  · rintro ⟨a, b, rfl, -, hb⟩
    exact ⟨a, b, rfl, hb⟩
  · rintro ⟨a, b, rfl, hb⟩
    exact ⟨a, b, rfl, ⟨a, [], (append_nil a).symm, rfl⟩, hb⟩

theorem likeMatches_plain (hc : escape ≠ some c) :
    LikeMatches escape (c :: pattern) v ↔
      ∃ a b, v = a ++ b ∧ Matches [plainToken c] a ∧
        LikeMatches escape pattern b := by
  rw [LikeMatches.eq_def]
  dsimp only
  rw [if_neg (by simpa using hc)]
  unfold plainToken
  split
  · rw [exists_any_iff]
  · split
    · rw [exists_one_iff]
    · rw [exists_literal_iff]

/-- The tokens match what the pattern matches, and there are none for a pattern that ends
with its escape character. -/
theorem likeTokensFrom_spec (escape : Option Char) (pattern : List Char)
    (tokens : List LikeToken) :
    if endsWithEscape escape pattern then
      likeTokensFrom escape pattern tokens = .error danglingEscape
    else
      ∃ ts, likeTokensFrom escape pattern tokens = .ok ts ∧
        ∀ v, Matches ts v ↔
          ∃ x y, v = x ++ y ∧ Matches tokens x ∧ LikeMatches escape pattern y := by
  induction pattern, tokens using likeTokensFrom.induct escape with
  | case1 tokens =>
    refine ⟨tokens, rfl, ?_⟩
    intro v
    simp [LikeMatches]
  | case2 character tokens hescape =>
    simp only [endsWithEscape, hescape, if_true]
    rw [likeTokensFrom, if_pos rfl]
  | case3 character tokens hescape next characters ih =>
    simp only [endsWithEscape, likeTokensFrom, LikeMatches, if_pos hescape,
      if_pos (beq_iff_eq.mpr hescape)]
    simp only [exists_push_iff, exists_literal_iff] at ih
    exact ih
  | case4 character characters tokens hescape ih =>
    rw [endsWithEscape.eq_def, likeTokensFrom.eq_def]
    simp only [if_neg hescape]
    simp only [exists_push_iff] at ih
    simp only [likeMatches_plain hescape]
    exact ih

theorem likeTokens_eq_ok (h : endsWithEscape escape pattern = false) :
    ∃ ts, likeTokens pattern escape = .ok ts ∧
      ∀ v, Matches ts v ↔ LikeMatches escape pattern v := by
  have hspec := likeTokensFrom_spec escape pattern []
  rw [if_neg (by simp [h])] at hspec
  obtain ⟨ts, hok, hmatches⟩ := hspec
  refine ⟨ts, hok, ?_⟩
  intro v
  rw [hmatches]
  simp [Matches]

end Tokens

/-! ## The table is right -/

namespace MatchWorkspace

variable {tokens : List LikeToken} {row : List Bool} {v : List Char} {w : MatchWorkspace}

theorem length_fillRow (cell : Nat → LikeToken → List Bool → Bool) (index : Nat) :
    (fillRow cell tokens index row).length = row.length := by
  induction tokens generalizing index row with
  | nil => rfl
  | cons token tokens ih => rw [fillRow, ih, length_set]

variable {cell : Nat → LikeToken → List Bool → Bool}

/-- The loop over the tokens: what holds of the first cell and is carried from each cell to
the next holds of all of them. -/
theorem fillRow_spec {P : Nat → Prop} {index : Nat}
    (hlength : row.length = index + tokens.length + 1)
    (hrow : ∀ j ≤ index, (row.getD j false = true ↔ P j))
    (hcell : ∀ i token row, tokens[i]? = some token →
      (row.getD (index + i) false = true ↔ P (index + i)) →
      (cell (index + i) token row = true ↔ P (index + i + 1))) :
    ∀ j ≤ index + tokens.length,
      ((fillRow cell tokens index row).getD j false = true ↔ P j) := by
  induction tokens generalizing index row with
  | nil => exact hrow
  | cons token tokens ih =>
    simp only [length_cons] at hlength
    intro j hj
    have hnext : cell index token row = true ↔ P (index + 1) :=
      hcell 0 token row rfl (hrow index (le_refl index))
    refine @ih _ (index + 1) ?_ ?_ ?_ j ?_
    · rw [length_set]
      omega
    · intro k hk
      rw [getD_eq_getElem?_getD, getElem?_set]
      split
      · next heq =>
        rw [if_pos (by omega), getD_some, ← heq]
        exact hnext
      · rw [← getD_eq_getElem?_getD]
        exact hrow k (by omega)
    · intro i t row' ht hprev
      have hshift : index + 1 + i = index + (i + 1) := by omega
      rw [hshift] at hprev ⊢
      exact hcell (i + 1) t row' (by simpa using ht) hprev
    · simp only [length_cons] at hj
      omega

/-- The whole loop, from the first token on. -/
theorem fillRow_zero (P : Nat → Prop) (hlength : row.length = tokens.length + 1)
    (hrow : row.getD 0 false = true ↔ P 0) (hcell : ∀ i token row, tokens[i]? = some token →
      (row.getD i false = true ↔ P i) → (cell i token row = true ↔ P (i + 1))) :
    ∀ j ≤ tokens.length, ((fillRow cell tokens 0 row).getD j false = true ↔ P j) := by
  intro j hj
  refine fillRow_spec (by omega) ?_ ?_ j (by omega)
  · intro k hk
    obtain rfl : k = 0 := by omega
    exact hrow
  · intro i token row hi
    rw [zero_add]
    exact hcell i token row hi

/-- The row says of every prefix of the tokens whether it matches the string. -/
structure RowFor (tokens : List LikeToken) (v : List Char) (row : List Bool) : Prop where
  length_eq : row.length = tokens.length + 1
  cell_iff : ∀ j ≤ tokens.length,
    (row.getD j false = true ↔ Matches (tokens.take j) v)

theorem take_succ_of_getElem? {i : Nat} {token : LikeToken} (h : tokens[i]? = some token) :
    tokens.take (i + 1) = tokens.take i ++ [token] := by
  rw [take_add_one, h, toList_some]

theorem rowFor_first (hlength : row.length = tokens.length + 1) :
    RowFor tokens [] (fillRow firstCell tokens 0 ((clear row).set 0 true)) where
  length_eq := by
    rw [length_fillRow, length_set, clear, length_map, hlength]
  cell_iff := by
    apply fillRow_zero fun j => Matches (tokens.take j) []
    · rw [length_set, clear, length_map, hlength]
    · have hpos : 0 < (clear row).length := by
        rw [clear, length_map]
        omega
      simp [getD_eq_getElem?_getD, hpos, Matches]
    · intro i token row hi hprev
      rw [take_succ_of_getElem? hi, firstCell, Bool.and_eq_true, decide_eq_true_eq, hprev]
      cases token with
      | any => simp [matches_snoc_any_nil]
      | one => simp [not_matches_snoc_one_nil]
      | literal c => simp [not_matches_snoc_literal_nil]

theorem rowFor_next {previous : List Bool} {value : Char} (h : RowFor tokens v previous)
    (hlength : row.length = tokens.length + 1) :
    RowFor tokens (v ++ [value])
      (fillRow (nextCell value previous) tokens 0 (clear row)) where
  length_eq := by rw [length_fillRow, clear, length_map, hlength]
  cell_iff := by
    apply fillRow_zero fun j => Matches (tokens.take j) (v ++ [value])
    · rw [clear, length_map, hlength]
    · rw [take_zero, getD_eq_getElem?_getD, clear, getElem?_map]
      cases row[0]? <;> simp [Matches]
    · intro i token row hi hprev
      have hlt : i < tokens.length := (List.getElem?_eq_some_iff.mp hi).1
      have hhere := h.cell_iff i (by omega)
      have habove := h.cell_iff (i + 1) (by omega)
      rw [take_succ_of_getElem? hi] at habove ⊢
      cases token with
      | any =>
        rw [nextCell, Bool.or_eq_true, habove, hprev, matches_snoc_any_snoc]
      | one => rw [nextCell, hhere, matches_snoc_one_snoc]
      | literal c =>
        rw [nextCell, Bool.and_eq_true, hhere, decide_eq_true_eq,
          matches_snoc_literal_snoc]

theorem rowFor_readChars (values : List Char) (h : RowFor tokens v w.previous)
    (hlength : w.current.length = tokens.length + 1) :
    RowFor tokens (v ++ values) (readChars tokens values w).previous ∧
      (readChars tokens values w).current.length = tokens.length + 1 := by
  induction values generalizing v w with
  | nil =>
    rw [append_nil]
    exact ⟨h, hlength⟩
  | cons value values ih =>
    have hrest := @ih (v ++ [value])
      { previous := fillRow (nextCell value w.previous) tokens 0 (clear w.current)
        current := w.previous } (rowFor_next h hlength) h.length_eq
    rw [append_assoc, singleton_append] at hrest
    exact hrest

/-- The workspace has a cell before and after every token. -/
structure Fits (w : MatchWorkspace) (tokens : Nat) : Prop where
  previous_length : w.previous.length = tokens + 1
  current_length : w.current.length = tokens + 1

theorem fits_new (tokens : Nat) : (new tokens).Fits tokens :=
  ⟨length_replicate, length_replicate⟩

/-- The table decides whether the tokens match, whatever it held before, and can be used
again. -/
theorem matchTokens_spec (h : w.Fits tokens.length) (value : List Char) :
    ((w.matchTokens value tokens).1 = true ↔ Matches tokens value) ∧
      (w.matchTokens value tokens).2.Fits tokens.length := by
  have hfirst : RowFor tokens [] (fillRow firstCell tokens 0 ((clear w.previous).set 0 true)) :=
    rowFor_first h.previous_length
  obtain ⟨hrow, hcurrent⟩ := @rowFor_readChars tokens []
    { w with previous := fillRow firstCell tokens 0 ((clear w.previous).set 0 true) }
    value hfirst h.current_length
  rw [nil_append] at hrow
  have hcell := hrow.cell_iff tokens.length (le_refl _)
  rw [take_length] at hcell
  exact ⟨hcell, hrow.length_eq, hcurrent⟩

end MatchWorkspace

/-! ## The literal segments are right -/

section Segments

variable {tokens us : List LikeToken} {current v : List Char}

/-- The pattern ends with `%`. -/
def endsWithAny (tokens : List LikeToken) : Bool :=
  decide (tokens.getLast? = some .any)

theorem endsWithAny_append (h : us ≠ []) : endsWithAny (tokens ++ us) = endsWithAny us := by
  rw [endsWithAny, endsWithAny, getLast?_append_of_ne_nil _ h]

theorem endsWithAny_cons {t : LikeToken} (h : tokens ≠ []) :
    endsWithAny (t :: tokens) = endsWithAny tokens := by
  rw [← singleton_append, endsWithAny_append h]

theorem endsWithAny_literals (h : current ≠ []) :
    endsWithAny (tokens ++ current.map .literal) = false := by
  rcases eq_nil_or_concat current with rfl | ⟨front, c, rfl⟩
  · exact absurd rfl h
  · simp [endsWithAny]

theorem collectSegments_ne_nil (h : current ≠ []) : collectSegments tokens current ≠ [] := by
  induction tokens generalizing current with
  | nil => simp [collectSegments, h]
  | cons t tokens ih =>
    cases t with
    | any => simp [collectSegments, h]
    | one => exact ih h
    | literal c => exact ih (by simp)

/-- Without a segment after a `%` there is nothing but `%`. -/
theorem endsWithAny_of_collectSegments (h : collectSegments tokens [] = [])
    (hone : .one ∉ tokens) : endsWithAny (.any :: tokens) = true := by
  induction tokens with
  | nil => rfl
  | cons t tokens ih =>
    rw [mem_cons, not_or] at hone
    cases t with
    | any =>
      rw [endsWithAny_cons (by simp)]
      exact ih h hone.2
    | one => exact absurd rfl hone.1
    | literal c =>
      rw [collectSegments] at h
      exact absurd h (collectSegments_ne_nil (by simp))

/-- A pattern that starts with `%`. -/
theorem matches_any_iff_floating (hone : .one ∉ tokens) :
    Matches (.any :: (current.map .literal ++ tokens)) v ↔
      Floating (endsWithAny (.any :: (current.map .literal ++ tokens)))
        (collectSegments tokens current) v := by
  induction tokens generalizing current v with
  | nil =>
    by_cases hcurrent : current = []
    · subst hcurrent
      have hall : Matches [.any] v := ⟨v, [], (append_nil v).symm, rfl⟩
      exact iff_of_true hall trivial
    · rw [append_nil, ← singleton_append, endsWithAny_literals hcurrent,
        collectSegments, if_neg hcurrent, floating_singleton_suffix]
      simp only [singleton_append, Matches, matches_literals]
      constructor
      · rintro ⟨g, w, rfl, rfl⟩
        exact ⟨g, rfl⟩
      · rintro ⟨g, rfl⟩
        exact ⟨g, current, rfl, rfl⟩
  | cons t tokens ih =>
    rw [mem_cons, not_or] at hone
    cases t with
    | one => exact absurd rfl hone.1
    | literal c =>
      have hsame : current.map .literal ++ .literal c :: tokens =
          (current ++ [c]).map .literal ++ tokens := by simp
      rw [hsame]
      exact ih hone.2
    | any =>
      by_cases hcurrent : current = []
      · subst hcurrent
        have hrest := @ih [] v hone.2
        rw [map_nil, nil_append] at hrest ⊢
        rw [matches_any_any, endsWithAny_cons (by simp)]
        exact hrest
      · have hend : endsWithAny (.any :: (current.map .literal ++ .any :: tokens)) =
            endsWithAny (.any :: tokens) := by
          rw [endsWithAny_cons (by simp), endsWithAny_append (by simp)]
        have hrest : ∀ w, Matches (.any :: tokens) w ↔ Floating
            (endsWithAny (.any :: tokens)) (collectSegments tokens []) w := fun w =>
          @ih [] w hone.2
        rw [hend, collectSegments, if_neg hcurrent,
          floating_cons fun h => endsWithAny_of_collectSegments h hone.2]
        simp only [Matches.eq_2, matches_map_literal, ← hrest]
        constructor
        · rintro ⟨g, _, rfl, w, rfl, hw⟩
          exact ⟨g, w, rfl, hw⟩
        · rintro ⟨g, w, rfl, hw⟩
          exact ⟨g, current ++ w, rfl, w, rfl, hw⟩

/-- A pattern that starts with a literal. -/
theorem matches_literal_iff_anchored (hcurrent : current ≠ []) (hone : .one ∉ tokens) :
    Matches (current.map .literal ++ tokens) v ↔
      Anchored (endsWithAny (current.map .literal ++ tokens))
        (collectSegments tokens current) v := by
  induction tokens generalizing current v with
  | nil =>
    have hend : endsWithAny ([] ++ current.map .literal) = false :=
      endsWithAny_literals hcurrent
    rw [nil_append] at hend
    rw [append_nil, hend, collectSegments, if_neg hcurrent, matches_literals]
    simp [Anchored]
  | cons t tokens ih =>
    rw [mem_cons, not_or] at hone
    cases t with
    | one => exact absurd rfl hone.1
    | literal c =>
      have hsame : current.map .literal ++ .literal c :: tokens =
          (current ++ [c]).map .literal ++ tokens := by simp
      rw [hsame]
      exact ih (by simp) hone.2
    | any =>
      have hrest : ∀ w, Matches (.any :: tokens) w ↔ Floating
          (endsWithAny (.any :: tokens)) (collectSegments tokens []) w := fun w =>
        @matches_any_iff_floating tokens [] w hone.2
      rw [endsWithAny_append (by simp), collectSegments, if_neg hcurrent,
        anchored_cons fun h => endsWithAny_of_collectSegments h hone.2]
      simp only [matches_map_literal, hrest]

end Segments

/-! ## The search for segments is right -/

section Search

variable {value : List Char} {parts rest : List (List Char)} {position : Nat} {trailingAny : Bool}

/-- The search for the middle parts, with parts to come. -/
theorem floating_append_iff (hrest : rest ≠ []) (hposition : position ≤ value.length) :
    Floating trailingAny (parts ++ rest) (value.drop position) ↔
      ∃ found, findParts value parts position = some found ∧ found ≤ value.length ∧
        Floating trailingAny rest (value.drop found) := by
  induction parts generalizing position with
  | nil =>
    constructor
    · intro h
      exact ⟨position, rfl, hposition, h⟩
    · rintro ⟨_, ⟨⟩, -, h⟩
      exact h
  | cons part parts ih =>
    rw [cons_append, floating_cons_iff (by simp [hrest])]
    rw [findParts, if_pos hposition]
    cases hfind : findSublist part (value.drop position) with
    | none => simp
    | some i =>
      obtain ⟨g, hg, hsplit⟩ := append_of_findSublist hfind
      have hlength := congrArg length hsplit
      simp only [length_append, length_drop] at hlength
      have hnext : position + i + part.length ≤ value.length := by omega
      have hdrop : (value.drop position).drop (i + part.length) =
          value.drop (position + i + part.length) := by
        rw [drop_drop, add_assoc]
      simp only [some.injEq, exists_eq_left', hdrop]
      exact ih hnext

theorem findParts_append :
    findParts value (parts ++ rest) position =
      (findParts value parts position).bind (findParts value rest) := by
  induction parts generalizing position with
  | nil => rfl
  | cons part parts ih =>
    simp only [cons_append, findParts]
    split
    · cases findSublist part (value.drop position) with
      | none => rfl
      | some found => exact ih
    · rfl

/-- The search when the pattern ends with `%`. -/
theorem floating_true_iff (hparts : parts ≠ []) (hposition : position ≤ value.length) :
    Floating true parts (value.drop position) ↔
      (findParts value parts position).isSome = true := by
  rcases eq_nil_or_concat parts with rfl | ⟨front, last, rfl⟩
  · exact absurd rfl hparts
  rw [concat_eq_append, floating_append_iff (by simp) hposition, findParts_append]
  simp only [floating_singleton_trailing]
  cases hfront : findParts value front position with
  | none => simp
  | some found =>
    simp only [some.injEq, exists_eq_left', bind_some, findParts]
    split
    · next hfound =>
      cases findSublist last (value.drop found) <;> simp [hfound]
    · next hfound => simp [hfound]

/-- A last part that stands at the end, after the position. -/
theorem suffix_drop_iff {last : List Char} (hposition : position ≤ value.length) :
    last <:+ value.drop position ↔
      last.length ≤ value.length ∧ position ≤ value.length - last.length ∧ last <:+ value := by
  constructor
  · intro h
    have hlength := h.length_le
    rw [length_drop] at hlength
    exact ⟨by omega, by omega, h.trans (drop_suffix position value)⟩
  · rintro ⟨hle, hposition', hsuffix⟩
    refine suffix_of_suffix_length_le hsuffix (drop_suffix position value) ?_
    rw [length_drop]
    omega

/-- The end of the search, for all parts that are still to come. -/
theorem searchParts_iff (trailingAny : Bool) (hparts : parts ≠ [])
    (hposition : position ≤ value.length) :
    searchParts value (parts.take (parts.length - if trailingAny then 0 else 1))
        (parts.getLastD []) trailingAny position = true ↔
      Floating trailingAny parts (value.drop position) := by
  cases trailingAny with
  | true =>
    rw [floating_true_iff hparts hposition, searchParts, if_pos rfl, Nat.sub_zero, take_length]
    cases findParts value parts position <;> simp
  | false =>
    rcases eq_nil_or_concat parts with rfl | ⟨front, last, rfl⟩
    · exact absurd rfl hparts
    rw [concat_eq_append, floating_append_iff (by simp) hposition, searchParts]
    have htake : (front ++ [last]).take ((front ++ [last]).length -
        if false = true then 0 else 1) = front := by simp
    have hlast : (front ++ [last]).getLastD [] = last := by simp
    rw [htake, hlast]
    simp only [floating_singleton_suffix]
    cases hfront : findParts value front position with
    | none => simp
    | some found =>
      simp only [Bool.false_eq_true, if_false, some.injEq, exists_eq_left',
        Bool.and_eq_true, decide_eq_true_eq, isSuffixOf_iff_suffix]
      constructor
      · rintro ⟨⟨hle, hfound⟩, hsuffix⟩
        have hin : found ≤ value.length := by omega
        exact ⟨hin, (suffix_drop_iff hin).mpr ⟨hle, hfound, hsuffix⟩⟩
      · rintro ⟨hin, hsuffix⟩
        obtain ⟨hle, hfound, hwhole⟩ := (suffix_drop_iff hin).mp hsuffix
        exact ⟨⟨hle, hfound⟩, hwhole⟩

theorem segmentsMatch_leading (hparts : parts ≠ []) :
    segmentsMatch value parts true trailingAny = true ↔
      Floating trailingAny parts value := by
  have hsearch := searchParts_iff trailingAny hparts (Nat.zero_le value.length)
  rw [drop_zero] at hsearch
  rw [← hsearch, segmentsMatch, if_neg (by simp)]
  rfl

theorem segmentsMatch_anchored {first : List Char} (hparts : parts ≠ []) :
    segmentsMatch value (first :: parts) false trailingAny = true ↔
      Anchored trailingAny (first :: parts) value := by
  rw [anchored_cons fun h => absurd h hparts, segmentsMatch]
  simp only [headD_cons, true_and, Bool.false_eq_true, if_false]
  by_cases hfirst : first <+: value
  · obtain ⟨tail, rfl⟩ := hfirst
    have hstart : first.isPrefixOf (first ++ tail) = true :=
      isPrefixOf_iff_prefix.mpr (prefix_append first tail)
    have hposition : first.length ≤ (first ++ tail).length := by simp
    have hsearch := searchParts_iff trailingAny hparts hposition
    rw [drop_left] at hsearch
    have hmiddle : ((first :: parts).take
        ((first :: parts).length - if trailingAny then 0 else 1)).drop 1 =
        parts.take (parts.length - if trailingAny then 0 else 1) := by
      have hpos := length_pos_iff.mpr hparts
      have hlength : (first :: parts).length - (if trailingAny then 0 else 1) =
          parts.length - (if trailingAny then 0 else 1) + 1 := by
        simp only [length_cons]
        split <;> omega
      rw [hlength, take_succ_cons, drop_one, tail_cons]
    have hlast : (first :: parts).getLastD [] = parts.getLastD [] := by
      obtain ⟨p, parts, rfl⟩ := exists_cons_of_ne_nil hparts
      simp
    rw [if_neg (by simp [hstart]), hmiddle, hlast, hsearch]
    constructor
    · intro h
      exact ⟨tail, rfl, h⟩
    · rintro ⟨w, heq, h⟩
      exact append_cancel_left heq ▸ h
  · have hstart : first.isPrefixOf value = false := by
      rw [Bool.eq_false_iff]
      exact fun h => hfirst ( isPrefixOf_iff_prefix.mp h)
    rw [if_pos hstart]
    simp only [Bool.false_eq_true, false_iff]
    rintro ⟨w, rfl, -⟩
    exact hfirst (prefix_append first w)

end Search

/-! ## The compiled matcher is right -/

section Compiled

variable {escape : Option Char} {pattern value : List Char} {tokens : List LikeToken}
  {w : MatchWorkspace} {compiled : CompiledLike} {parts : List (List Char)}

theorem findSublist_nil (l : List Char) : (findSublist [] l).isSome = true := by
  cases l <;> simp [findSublist]

theorem ofParts_leading (trailingAny : Bool) :
    ((CompiledLike.ofParts parts true trailingAny).isMatch value w).1 = true ↔
      Floating trailingAny parts value := by
  match parts with
  | [] => exact iff_of_true (findSublist_nil value) trivial
  | [p] =>
    cases trailingAny with
    | true => exact floating_singleton_trailing.symm
    | false =>
      rw [floating_singleton_suffix]
      exact isSuffixOf_iff_suffix
  | p :: p' :: parts => exact segmentsMatch_leading (by simp)

theorem ofParts_anchored (trailingAny : Bool) (hparts : parts ≠ []) :
    ((CompiledLike.ofParts parts false trailingAny).isMatch value w).1 = true ↔
      Anchored trailingAny parts value := by
  match parts with
  | [] => exact absurd rfl hparts
  | [p] =>
    cases trailingAny with
    | true =>
      have hstart : p.isPrefixOf value = true ↔ ∃ rest, value = p ++ rest := by
        rw [ isPrefixOf_iff_prefix]
        exact ⟨fun ⟨rest, h⟩ => ⟨rest, h.symm⟩, fun ⟨rest, h⟩ => ⟨rest, h.symm⟩⟩
      simp [CompiledLike.ofParts, CompiledLike.isMatch, Anchored, hstart]
    | false => simp [CompiledLike.ofParts, CompiledLike.isMatch, Anchored]
  | p :: p' :: parts => exact segmentsMatch_anchored (by simp)

/-- The strategies for patterns without `_`. -/
theorem fromLiteralSegments_iff (hone : .one ∉ tokens) :
    ((CompiledLike.fromLiteralSegments tokens).isMatch value w).1 = true ↔
      Matches tokens value := by
  unfold CompiledLike.fromLiteralSegments
  cases tokens with
  | nil => simp [CompiledLike.isMatch, Matches]
  | cons t ts =>
    rw [mem_cons, not_or] at hone
    rw [if_neg (by simp)]
    cases t with
    | one => exact absurd rfl hone.1
    | any =>
      have hcollect : collectSegments (.any :: ts) [] = collectSegments ts [] := by
        rw [collectSegments, if_pos rfl]
      have hfloating := @matches_any_iff_floating ts [] value hone.2
      rw [map_nil, nil_append] at hfloating
      rw [hcollect, hfloating]
      exact ofParts_leading _
    | literal c =>
      have hanchored := @matches_literal_iff_anchored ts [c] value (by simp) hone.2
      rw [map_singleton, singleton_append] at hanchored
      have hparts : collectSegments ts [c] ≠ [] :=
        collectSegments_ne_nil (cons_ne_nil c [])
      rw [hanchored]
      exact ofParts_anchored _ hparts

/-- A match leaves a workspace that fits the next one. -/
theorem fits_isMatch (h : w.Fits compiled.wildcardTokens) :
    (compiled.isMatch value w).2.Fits compiled.wildcardTokens := by
  cases compiled with
  | wildcard tokens => exact (MatchWorkspace.matchTokens_spec h value).2
  | exactly | startsWith | endsWith | contains | segments => exact h

theorem new_eq_error (h : endsWithEscape escape pattern = true) :
    CompiledLike.new pattern escape = .error danglingEscape := by
  have htokens := likeTokensFrom_spec escape pattern []
  rw [if_pos h] at htokens
  rw [CompiledLike.new, likeTokens, htokens]
  rfl

/-- Every strategy decides what the pattern means. -/
theorem new_eq_ok (h : endsWithEscape escape pattern = false) :
    ∃ compiled, CompiledLike.new pattern escape = .ok compiled ∧
      ∀ value w, MatchWorkspace.Fits w compiled.wildcardTokens →
        ((compiled.isMatch value w).1 = true ↔ LikeMatches escape pattern value) := by
  obtain ⟨tokens, htokens, hmatches⟩ := likeTokens_eq_ok h
  by_cases hone : .one ∈ tokens
  · refine ⟨.wildcard tokens, ?_, ?_⟩
    · rw [CompiledLike.new, htokens]
      exact if_pos hone
    · intro value w hfits
      rw [← hmatches]
      exact (MatchWorkspace.matchTokens_spec hfits value).1
  · refine ⟨CompiledLike.fromLiteralSegments tokens, ?_, ?_⟩
    · rw [CompiledLike.new, htokens]
      exact if_neg hone
    · intro value w _
      rw [← hmatches]
      exact fromLiteralSegments_iff hone

theorem matchesPattern_eq_error (h : endsWithEscape escape pattern = true) :
    matchesPattern value pattern escape = .error danglingEscape := by
  rw [matchesPattern, new_eq_error h]
  rfl

theorem matchesPattern_eq_ok (h : endsWithEscape escape pattern = false) (value : List Char) :
    ∃ matched, matchesPattern value pattern escape = .ok matched ∧
      (matched = true ↔ LikeMatches escape pattern value) := by
  obtain ⟨compiled, hnew, hmatch⟩ := new_eq_ok h
  refine ⟨_, ?_, hmatch value _ (MatchWorkspace.fits_new compiled.wildcardTokens)⟩
  rw [matchesPattern, hnew]
  rfl

end Compiled

/-! ## The two paths -/

section Paths

variable {escape : Option Char} {pattern : List Char} {negated : Bool}

/-- The rows that share a workspace are those of the pattern. -/
theorem matchRows_eq {compiled : CompiledLike} {w : MatchWorkspace}
    (hnew : CompiledLike.new pattern escape = .ok compiled)
    (hmatch : ∀ value w, MatchWorkspace.Fits w compiled.wildcardTokens →
      ((compiled.isMatch value w).1 = true ↔ LikeMatches escape pattern value))
    (hfits : w.Fits compiled.wildcardTokens) (rows : List (Option (List Char))) :
    rows.mapM (evaluateRow negated escape · (some pattern)) =
      .ok (matchRows compiled negated rows w) := by
  induction rows generalizing w with
  | nil => rfl
  | cons row rows ih =>
    rw [mapM_cons]
    cases row with
    | none =>
      rw [ih hfits]
      rfl
    | some value =>
      have hsame : (compiled.isMatch value (.new compiled.wildcardTokens)).1 =
          (compiled.isMatch value w).1 := by
        rw [Bool.eq_iff_iff, hmatch _ _ hfits]
        exact hmatch _ _ (MatchWorkspace.fits_new _)
      have hrow : evaluateRow negated escape (some value) (some pattern) =
          .ok (some ((compiled.isMatch value w).1 ^^ negated)) := by
        rw [evaluateRow, matchesPattern, hnew, ← hsame]
        rfl
      rw [hrow, ih (fits_isMatch hfits)]
      rfl

variable {rows : List (Option (List Char))}

/-- With a dangling escape the rows fail as soon as there is a value. -/
theorem mapM_evaluateRow_dangling (h : endsWithEscape escape pattern = true)
    (hnull : ¬ rows.countP (·.isNone) = rows.length) :
    rows.mapM (evaluateRow negated escape · (some pattern)) = .error danglingEscape := by
  induction rows with
  | nil => exact absurd rfl hnull
  | cons row rows ih =>
    rw [mapM_cons]
    cases row with
    | none =>
      rw [ih (by simpa using hnull)]
      rfl
    | some value =>
      rw [evaluateRow, matchesPattern_eq_error h]
      rfl

theorem zip_replicate {p : Option (List Char)} :
    rows.zip (replicate rows.length p) = rows.map fun row => (row, p) := by
  induction rows with
  | nil => rfl
  | cons row rows ih => rw [length_cons, replicate_succ, zip_cons_cons, ih, map_cons]

/-- Rows without a value are null on both paths. -/
theorem mapM_evaluateRow_null (hnull : rows.countP (·.isNone) = rows.length) :
    rows.mapM (evaluateRow negated escape · (some pattern)) =
      .ok (replicate rows.length none) := by
  induction rows with
  | nil => rfl
  | cons row rows ih =>
    rw [countP_eq_length] at hnull
    obtain rfl : row = none := isNone_iff_eq_none.mp (hnull row mem_cons_self)
    have hrest := ih (countP_eq_length.mpr fun r hr => hnull r (mem_cons_of_mem _ hr))
    rw [mapM_cons, hrest]
    rfl

theorem evaluate_replicate (rows : List (Option (List Char))) :
    evaluate (.strings rows) (.strings (replicate rows.length (some pattern))) negated
        escape =
      rows.mapM (evaluateRow negated escape · (some pattern)) := by
  show (rows.zip (replicate rows.length (some pattern))).mapM _ = _
  rw [zip_replicate, List.mapM_map]
  rfl

theorem evaluateLiteral_strings (rows : List (Option (List Char))) :
    evaluateLiteral (.strings rows) pattern negated escape =
      if rows.countP (·.isNone) = rows.length then .ok (replicate rows.length none)
      else CompiledLike.new pattern escape >>= fun compiled =>
        .ok (matchRows compiled negated rows (.new compiled.wildcardTokens)) := rfl

/-- The literal path is the per-row path for a column that repeats the pattern. -/
theorem evaluateLiteral_eq (values : ArrayRef) :
    evaluateLiteral values pattern negated escape =
      evaluate values (.strings (replicate values.length (some pattern))) negated
        escape := by
  cases values with
  | other dataType length => rfl
  | strings rows =>
    refine Eq.trans (evaluateLiteral_strings rows) (Eq.trans ?_ (evaluate_replicate rows).symm)
    split
    case isTrue hnull => rw [mapM_evaluateRow_null hnull]
    case isFalse hnull =>
      cases hend : endsWithEscape escape pattern with
      | true =>
        rw [mapM_evaluateRow_dangling hend hnull, new_eq_error hend]
        rfl
      | false =>
        obtain ⟨compiled, hnew, hmatch⟩ := new_eq_ok hend
        rw [matchRows_eq hnew hmatch (MatchWorkspace.fits_new _), hnew]
        rfl

/-- Only a value makes a dangling escape fail. -/
theorem evaluateLiteral_eq_error_iff (rows : List (Option (List Char))) :
    (∃ e, evaluateLiteral (.strings rows) pattern negated escape = .error e) ↔
      endsWithEscape escape pattern = true ∧ ∃ value, some value ∈ rows := by
  have hvalue : (∃ value, some value ∈ rows) ↔ ¬ rows.countP (·.isNone) = rows.length := by
    simp [countP_eq_length, Option.exists]
  rw [evaluateLiteral_strings, hvalue]
  split
  case isTrue hnull => simp [hnull]
  case isFalse hnull =>
    cases hend : endsWithEscape escape pattern with
    | true =>
      rw [new_eq_error hend]
      exact iff_of_true ⟨_, rfl⟩ ⟨rfl, hnull⟩
    | false =>
      obtain ⟨compiled, hnew, -⟩ := new_eq_ok hend
      rw [hnew]
      refine iff_of_false ?_ (by simp)
      rintro ⟨e, he⟩
      cases he

end Paths

/-- The compiled matcher decides what the pattern means, and a literal pattern gives what a
column of that pattern gives, errors included. -/
theorem like_follows_its_definition (escape : Option Char) (pattern : List Char) :
    (endsWithEscape escape pattern = true → ∀ value,
      matchesPattern value pattern escape = .error danglingEscape) ∧
    (endsWithEscape escape pattern = false → ∀ value, ∃ matched,
      matchesPattern value pattern escape = .ok matched ∧
        (matched = true ↔ LikeMatches escape pattern value)) ∧
    (∀ values negated, evaluateLiteral values pattern negated escape =
      evaluate values (.strings (List.replicate values.length (some pattern))) negated
        escape) ∧
    (∀ rows negated,
      (∃ e, evaluateLiteral (.strings rows) pattern negated escape = .error e) ↔
        endsWithEscape escape pattern = true ∧ ∃ value, some value ∈ rows) := by
  refine ⟨?_, ?_, ?_, ?_⟩
  · intro h value
    exact matchesPattern_eq_error h
  · intro h value
    exact matchesPattern_eq_ok h value
  · intro values negated
    exact evaluateLiteral_eq values
  · intro rows negated
    exact evaluateLiteral_eq_error_iff rows

/-- An escaped `_`, and a pattern whose last character escapes nothing. -/
theorem like_with_escaped_underscore :
    (∃ matched, matchesPattern ['a', '_', 'b'] ['a', '!', '_', '%'] (some '!') =
      .ok matched ∧
        (matched = true ↔ LikeMatches (some '!') ['a', '!', '_', '%'] ['a', '_', 'b'])) ∧
    matchesPattern ['a'] ['a', '!'] (some '!') = .error danglingEscape :=
  ⟨(like_follows_its_definition (some '!') ['a', '!', '_', '%']).2.1 (by decide) _,
    (like_follows_its_definition (some '!') ['a', '!']).1 (by decide) _⟩

end RustDb.Execution
