import Mathlib.Algebra.GroupWithZero.Nat
import Mathlib.Data.List.TakeDrop
import Mathlib.Data.Nat.Notation
import Mathlib.Tactic.Common

/-!
# HTML texts

What an HTML parser makes of a text that it reads from the data state on: characters, and
stretches of markup (tags, comments, declarations). Of the markup only the extent is kept,
so two texts with the same stretches have the same elements. Bytes from 0x80 on are
ordinary characters. The switch to another tokenizer state behind the tags of `script` and
the like is left out; it comes after the tag.

The second half is about texts that are written as fields and tags in turn: a field is read
as its own characters exactly when it is `Inert`, whatever the other fields are.
-/

namespace Html

abbrev Bytes := List (BitVec 8)

def lessThan : BitVec 8 := 0x3C#8
def greaterThan : BitVec 8 := 0x3E#8
def ampersand : BitVec 8 := 0x26#8
def slash : BitVec 8 := 0x2F#8
def exclamation : BitVec 8 := 0x21#8
def question : BitVec 8 := 0x3F#8
def equals : BitVec 8 := 0x3D#8
def dash : BitVec 8 := 0x2D#8
def doubleQuote : BitVec 8 := 0x22#8
def singleQuote : BitVec 8 := 0x27#8
def newline : BitVec 8 := 0x0A#8
def carriageReturn : BitVec 8 := 0x0D#8

def isLetter (c : BitVec 8) : Bool :=
  (0x41 ≤ c.toNat && c.toNat ≤ 0x5A) || (0x61 ≤ c.toNat && c.toNat ≤ 0x7A)

def isDigit (c : BitVec 8) : Bool := 0x30 ≤ c.toNat && c.toNat ≤ 0x39

/-- Tab, line feed, form feed, carriage return, blank. -/
def isSpace (c : BitVec 8) : Bool :=
  c = 0x09#8 || c = newline || c = 0x0C#8 || c = carriageReturn || c = 0x20#8

inductive Token
  | text (c : BitVec 8)
  /-- The source behind `<`, with the closing `>` if there is one. -/
  | markup (source : Bytes)
  deriving DecidableEq, Repr

/-! ## Character references -/

/-- The bytes that character references are written with. -/
def isReferenceByte (c : BitVec 8) : Bool := isLetter c || isDigit c || c = 0x23#8 || c = 0x3B#8

/-- The character references: what stands behind `&` is read as characters, with the number
of bytes that this takes, or not at all. A reference denotes one or two code points, and
the ampersand is in none but its own. -/
structure References where
  read : Bytes → Option (Bytes × ℕ)
  read_append : ∀ (t : Bytes) (c : BitVec 8) (rest : Bytes), isReferenceByte c = false →
    read (t ++ c :: rest) = read t
  length_read : ∀ {t d n}, read t = some (d, n) → 0 < n ∧ n ≤ t.length
  length_le : ∀ {t d n}, read t = some (d, n) → d.length ≤ 8
  ampersand_mem : ∀ {t d n}, read t = some (d, n) → ampersand ∈ d → d = [ampersand]

/-! ## Tags -/

/-- The states within a tag. Behind `/` and behind a quoted value the tokenizer reads on as
before an attribute name. -/
inductive TagState
  | tagName
  | beforeAttributeName
  | attributeName
  | afterAttributeName
  | beforeAttributeValue
  | doubleQuoted
  | singleQuoted
  | unquoted
  deriving DecidableEq, Repr

namespace TagState

def isQuoted : TagState → Bool
  | doubleQuoted | singleQuoted => true
  | _ => false

/-- The state behind a byte that does not end the tag. -/
def next : TagState → BitVec 8 → TagState
  | tagName, c => if isSpace c ∨ c = slash then beforeAttributeName else tagName
  | beforeAttributeName, c => if isSpace c ∨ c = slash then beforeAttributeName else attributeName
  | attributeName, c =>
    if c = slash then beforeAttributeName
    else if isSpace c then afterAttributeName
    else if c = equals then beforeAttributeValue
    else attributeName
  | afterAttributeName, c =>
    if c = slash then beforeAttributeName
    else if isSpace c then afterAttributeName
    else if c = equals then beforeAttributeValue
    else attributeName
  | beforeAttributeValue, c =>
    if isSpace c then beforeAttributeValue
    else if c = doubleQuote then doubleQuoted
    else if c = singleQuote then singleQuoted
    else unquoted
  | doubleQuoted, c => if c = doubleQuote then beforeAttributeName else doubleQuoted
  | singleQuoted, c => if c = singleQuote then beforeAttributeName else singleQuoted
  | unquoted, c => if isSpace c then beforeAttributeName else unquoted

def isEnd (s : TagState) (c : BitVec 8) : Bool := c = greaterThan && !s.isQuoted

end TagState

/-- The rest of a tag and what comes behind it; nothing if the text ends before the tag. -/
def scanTag : TagState → Bytes → Option (Bytes × Bytes)
  | _, [] => none
  | s, c :: t =>
    if s.isEnd c then some ([c], t) else (scanTag (s.next c) t).map fun r => (c :: r.1, r.2)

/-! ## Comments and declarations -/

/-- A declaration or a malformed comment: it goes to the next `>`. -/
def scanBogus : Bytes → Bytes × Bytes
  | [] => ([], [])
  | c :: t => if c = greaterThan then ([c], t) else (c :: (scanBogus t).1, (scanBogus t).2)

/-- The rest of a comment. -/
def scanComment : Bytes → Bytes × Bytes
  | [] => ([], [])
  | c :: t =>
    if [dash, dash, greaterThan].isPrefixOf (c :: t) then ((c :: t).take 3, t.drop 2)
    else if [dash, dash, exclamation, greaterThan].isPrefixOf (c :: t) then
      ((c :: t).take 4, t.drop 3)
    else (c :: (scanComment t).1, (scanComment t).2)

/-- The text behind `<!--`; the comments `<!-->` and `<!--->` are empty. -/
def scanCommentStart (t : Bytes) : Bytes × Bytes :=
  if [greaterThan].isPrefixOf t then (t.take 1, t.drop 1)
  else if [dash, greaterThan].isPrefixOf t then (t.take 2, t.drop 2)
  else scanComment t

/-! ## The data state -/

def emitMarkup (start : Bytes) (scanned : Bytes × Bytes) : List Token × Bytes :=
  ([.markup (start ++ scanned.1)], scanned.2)

/-- A tag that does not end is dropped with the rest of the text. -/
def emitTag (start : Bytes) : Option (Bytes × Bytes) → List Token × Bytes
  | some scanned => emitMarkup start scanned
  | none => ([], [])

/-- The text behind `</`. -/
def openEndTag : Bytes → List Token × Bytes
  | [] => ([.text lessThan, .text slash], [])
  | c :: t =>
    if isLetter c then emitTag [slash, c] (scanTag .tagName t)
    else if c = greaterThan then ([], t)
    else emitMarkup [slash] (scanBogus (c :: t))

/-- The text behind `<!`. -/
def openDeclaration (t : Bytes) : List Token × Bytes :=
  if [dash, dash].isPrefixOf t then
    emitMarkup [exclamation, dash, dash] (scanCommentStart (t.drop 2))
  else emitMarkup [exclamation] (scanBogus t)

/-- The text behind `<`. -/
def openMarkup : Bytes → List Token × Bytes
  | [] => ([.text lessThan], [])
  | c :: t =>
    if isLetter c then emitTag [c] (scanTag .tagName t)
    else if c = slash then openEndTag t
    else if c = exclamation then openDeclaration t
    else if c = question then emitMarkup [] (scanBogus (c :: t))
    else ([.text lessThan], c :: t)

/-- The tokens at a byte, and the text where it goes on. Newlines are normalized and null
bytes are dropped. -/
def step (refs : References) (c : BitVec 8) (t : Bytes) : List Token × Bytes :=
  if c = lessThan then openMarkup t
  else if c = ampersand then
    match refs.read t with
    | some (d, n) => (d.map .text, t.drop n)
    | none => ([.text c], t)
  else if c = carriageReturn then
    if [newline].isPrefixOf t then ([], t) else ([.text newline], t)
  else if c = 0 then ([], t)
  else ([.text c], t)

def tokensWith (refs : References) : ℕ → Bytes → List Token
  | 0, _ => []
  | _ + 1, [] => []
  | fuel + 1, c :: t => (step refs c t).1 ++ tokensWith refs fuel (step refs c t).2

/-- Every step reads a byte at least. -/
def tokens (refs : References) (t : Bytes) : List Token := tokensWith refs t.length t

/-- The stretches of markup, which make up the element structure. -/
def markups (ts : List Token) : List Bytes :=
  ts.filterMap fun
    | .text _ => none
    | .markup source => some source

/-! ## The steps get shorter -/

theorem scanTag_length {s : TagState} {t : Bytes} {r : Bytes × Bytes} (h : scanTag s t = some r) :
    r.2.length ≤ t.length := by
  induction t generalizing s r with
  | nil => cases h
  | cons c t ih =>
    rw [scanTag] at h
    split at h
    · cases h
      simp
    · obtain ⟨r', hr', rfl⟩ := Option.map_eq_some_iff.mp h
      have hlength := ih hr'
      exact Nat.le_succ_of_le hlength

theorem scanBogus_length (t : Bytes) : (scanBogus t).2.length ≤ t.length := by
  induction t with
  | nil => exact Nat.le_refl _
  | cons c t ih =>
    rw [scanBogus]
    split
    · simp
    · exact Nat.le_succ_of_le ih

theorem scanComment_length (t : Bytes) : (scanComment t).2.length ≤ t.length := by
  induction t with
  | nil => exact Nat.le_refl _
  | cons c t ih =>
    rw [scanComment]
    split
    · simp; omega
    split
    · simp; omega
    · exact Nat.le_succ_of_le ih

theorem scanCommentStart_length (t : Bytes) : (scanCommentStart t).2.length ≤ t.length := by
  unfold scanCommentStart
  split
  · simp
  split
  · simp
  · exact scanComment_length t

theorem emitTag_length {start t : Bytes} {s : TagState} :
    (emitTag start (scanTag s t)).2.length ≤ t.length := by
  cases h : scanTag s t with
  | none => exact Nat.zero_le _
  | some r => exact scanTag_length h

theorem openMarkup_length (t : Bytes) : (openMarkup t).2.length ≤ t.length := by
  cases t with
  | nil => exact Nat.le_refl _
  | cons c t =>
    rw [openMarkup]
    split
    · exact Nat.le_succ_of_le emitTag_length
    split
    · cases t with
      | nil => exact Nat.zero_le _
      | cons d t =>
        rw [openEndTag]
        split
        · exact Nat.le_succ_of_le (Nat.le_succ_of_le emitTag_length)
        split
        · simp; omega
        · exact Nat.le_succ_of_le (scanBogus_length _)
    split
    · unfold openDeclaration
      split
      · refine Nat.le_trans (scanCommentStart_length _) ?_
        simp only [List.length_drop, List.length_cons]
        omega
      · exact Nat.le_succ_of_le (scanBogus_length _)
    split
    · exact scanBogus_length _
    · exact Nat.le_refl _

theorem step_length (refs : References) (c : BitVec 8) (t : Bytes) :
    (step refs c t).2.length ≤ t.length := by
  unfold step
  split
  · exact openMarkup_length t
  split
  · split <;> simp
  split
  · split <;> exact Nat.le_refl _
  split <;> exact Nat.le_refl _

theorem tokensWith_eq {refs : References} {fuel : ℕ} {t : Bytes} (h : t.length ≤ fuel) :
    tokensWith refs fuel t = tokens refs t := by
  have hall : ∀ n m, t.length ≤ n → t.length ≤ m → tokensWith refs n t = tokensWith refs m t := by
    clear h
    intro n
    induction n generalizing t with
    | zero =>
      intro m hn _
      rw [List.eq_nil_of_length_eq_zero (Nat.le_zero.mp hn)]
      cases m <;> rfl
    | succ n ih =>
      intro m hn hm
      cases t with
      | nil => cases m <;> rfl
      | cons c t =>
        simp only [List.length_cons] at hn hm
        obtain ⟨m, rfl⟩ : ∃ k, m = k + 1 := ⟨m - 1, by omega⟩
        have hstep := step_length refs c t
        rw [tokensWith, tokensWith, ih m (by omega) (by omega)]
  exact hall fuel t.length h (Nat.le_refl _)

@[simp] theorem tokens_nil {refs : References} : tokens refs [] = [] := rfl

theorem tokens_cons {refs : References} {c : BitVec 8} {t : Bytes} :
    tokens refs (c :: t) = (step refs c t).1 ++ tokens refs (step refs c t).2 := by
  conv_lhs => rw [tokens, List.length_cons, tokensWith]
  rw [tokensWith_eq (step_length refs c t)]

/-! ## Inert texts -/

/-- The text behind `<` makes it the start of markup. -/
def opensMarkup : Bytes → Bool
  | [] => false
  | c :: _ => isLetter c || c = slash || c = exclamation || c = question

/-- A text that is read as the characters it is made of: no start of markup, no character
reference, no carriage return and no null byte. -/
def Inert (refs : References) : Bytes → Prop
  | [] => True
  | c :: t =>
    (c = lessThan → opensMarkup t = false) ∧ (c = ampersand → refs.read t = none) ∧
      c ≠ carriageReturn ∧ c ≠ 0 ∧ Inert refs t

def decideInert (refs : References) : (t : Bytes) → Decidable (Inert refs t)
  | [] => .isTrue trivial
  | c :: t =>
    have := decideInert refs t
    inferInstanceAs (Decidable ((c = lessThan → opensMarkup t = false) ∧
      (c = ampersand → refs.read t = none) ∧ c ≠ carriageReturn ∧ c ≠ 0 ∧ Inert refs t))

instance (refs : References) (t : Bytes) : Decidable (Inert refs t) := decideInert refs t

section Inert

variable {refs : References} {c : BitVec 8} {t rest : Bytes}

theorem openMarkup_of_not_opens (h : opensMarkup t = false) :
    openMarkup t = ([.text lessThan], t) := by
  cases t with
  | nil => rfl
  | cons c t =>
    simp only [opensMarkup, Bool.or_eq_false_iff, decide_eq_false_iff_not] at h
    obtain ⟨⟨⟨hletter, hslash⟩, hexclamation⟩, hquestion⟩ := h
    rw [openMarkup, hletter, if_neg Bool.false_ne_true, if_neg hslash, if_neg hexclamation,
      if_neg hquestion]

/-- Text stops before a tag, so what follows the text does not matter. -/
theorem opensMarkup_append (rest : Bytes) :
    opensMarkup (t ++ lessThan :: rest) = opensMarkup t := by
  cases t <;> rfl

theorem read_append_lessThan : refs.read (t ++ lessThan :: rest) = refs.read t :=
  refs.read_append t lessThan rest rfl

theorem step_inert (hinert : Inert refs (c :: t)) :
    step refs c (t ++ lessThan :: rest) = ([.text c], t ++ lessThan :: rest) := by
  obtain ⟨hmarkup, hreference, hreturn, hnull, _⟩ := hinert
  unfold step
  split
  next hc =>
    rw [openMarkup_of_not_opens, hc]
    rw [opensMarkup_append]
    exact hmarkup hc
  split
  next hc => rw [read_append_lessThan, hreference hc]
  rfl

theorem tokens_inert (hinert : Inert refs t) :
    tokens refs (t ++ lessThan :: rest) = t.map .text ++ tokens refs (lessThan :: rest) := by
  induction t with
  | nil => rfl
  | cons c t ih =>
    rw [List.cons_append, tokens_cons, step_inert hinert]
    dsimp only
    rw [ih hinert.2.2.2.2]
    rfl

/-- A byte that never takes part in markup or in a character reference. -/
def isPlain (c : BitVec 8) : Bool :=
  c ≠ lessThan && c ≠ ampersand && c ≠ carriageReturn && c ≠ 0

theorem inert_of_plain (h : t.all isPlain = true) : Inert refs t := by
  induction t with
  | nil => trivial
  | cons c t ih =>
    simp only [List.all_cons, isPlain, Bool.and_eq_true, decide_eq_true_eq] at h
    obtain ⟨⟨⟨⟨hmarkup, hreference⟩, hreturn⟩, hnull⟩, hrest⟩ := h
    exact ⟨fun hc => absurd hc hmarkup, fun hc => absurd hc hreference, hreturn, hnull, ih hrest⟩

/-- A byte that neither continues a reference nor starts markup keeps texts apart. -/
theorem inert_append (hreference : isReferenceByte c = false) (hmarkup : opensMarkup [c] = false)
    (rest : Bytes) : Inert refs (t ++ c :: rest) ↔ Inert refs t ∧ Inert refs (c :: rest) := by
  induction t with
  | nil => exact ⟨fun h => ⟨trivial, h⟩, fun h => h.2⟩
  | cons d t ih =>
    have hopens : opensMarkup (t ++ c :: rest) = opensMarkup t := by
      cases t with
      | nil => exact hmarkup
      | cons e t => rfl
    rw [List.cons_append, Inert, hopens, refs.read_append t c rest hreference, ih]
    constructor
    · rintro ⟨hmark, href, hret, hnull, ht, hrest⟩
      exact ⟨⟨hmark, href, hret, hnull, ht⟩, hrest⟩
    · rintro ⟨⟨hmark, href, hret, hnull, ht⟩, hrest⟩
      exact ⟨hmark, href, hret, hnull, ht, hrest⟩

end Inert

/-! ## Other texts

What is read of any other text up to the first markup weighs less than the text. A
reference may denote more bytes than it is written with, so `&` weighs more than the
characters of a reference do. -/

def byteWeight (c : BitVec 8) : ℕ :=
  if c = ampersand then 17 else if c = carriageReturn then 2 else 1

def weight (t : Bytes) : ℕ := (t.map byteWeight).sum

/-- The characters up to the first markup. -/
def leadingText : List Token → Bytes
  | .text c :: ts => c :: leadingText ts
  | _ => []

theorem byteWeight_pos (c : BitVec 8) : 0 < byteWeight c := by
  unfold byteWeight
  split
  · decide
  · split <;> decide

@[simp] theorem weight_nil : weight [] = 0 := rfl

@[simp] theorem weight_cons (c : BitVec 8) (t : Bytes) :
    weight (c :: t) = byteWeight c + weight t := by
  simp [weight]

@[simp] theorem weight_append (s t : Bytes) : weight (s ++ t) = weight s + weight t := by
  simp [weight]

theorem leadingText_append (d : Bytes) (ts : List Token) :
    leadingText (d.map .text ++ ts) = d ++ leadingText ts := by
  induction d with
  | nil => rfl
  | cons c d ih => simp [leadingText, ih]

theorem length_le_weight (t : Bytes) : t.length ≤ weight t := by
  induction t with
  | nil => exact Nat.le_refl _
  | cons c t ih =>
    have hpos := byteWeight_pos c
    simp only [List.length_cons, weight_cons]
    omega

/-! ### What a step makes of a text -/

section Step

variable {refs : References} {c : BitVec 8} {t rest : Bytes}

theorem weight_le_of_no_ampersand {t : Bytes} (h : ampersand ∉ t) : weight t ≤ 2 * t.length := by
  induction t with
  | nil => exact Nat.le_refl _
  | cons c t ih =>
    rw [List.mem_cons, not_or] at h
    have hrest := ih h.2
    have hbyte : byteWeight c ≤ 2 := by
      rw [byteWeight, if_neg (Ne.symm h.1)]
      split <;> decide
    simp only [weight_cons, List.length_cons]
    omega

/-- What a reference denotes weighs no more than an ampersand. -/
theorem weight_denoted {d : Bytes} {n : ℕ} (h : refs.read t = some (d, n)) :
    weight d ≤ byteWeight ampersand := by
  by_cases hmem : ampersand ∈ d
  · rw [refs.ampersand_mem h hmem]
    exact Nat.le_refl _
  · have hlength := refs.length_le h
    have hbound := weight_le_of_no_ampersand hmem
    have hweight : byteWeight ampersand = 17 := rfl
    omega

theorem weight_read {d : Bytes} {n : ℕ} (h : refs.read t = some (d, n)) :
    weight d + weight (t.drop n) < byteWeight ampersand + weight t := by
  obtain ⟨hpos, hle⟩ := refs.length_read h
  have hdenoted := weight_denoted h
  have hread : 0 < weight (t.take n) := by
    refine Nat.lt_of_lt_of_le ?_ (length_le_weight _)
    rw [List.length_take]
    omega
  have hsplit : weight t = weight (t.take n) + weight (t.drop n) := by
    rw [← weight_append, List.take_append_drop]
  omega

theorem leadingText_emitTag {start : Bytes} {scanned : Option (Bytes × Bytes)} :
    leadingText ((emitTag start scanned).1 ++ tokens refs (emitTag start scanned).2) = [] := by
  cases scanned <;> rfl

/-- The start of markup ends the text, save for `</>`, which is dropped. -/
theorem openMarkup_of_opens (refs : References) (rest : Bytes) (h : opensMarkup t = true) :
    (∃ u, t = slash :: greaterThan :: u ∧
      openMarkup (t ++ lessThan :: rest) = ([], u ++ lessThan :: rest)) ∨
    leadingText ((openMarkup (t ++ lessThan :: rest)).1 ++
      tokens refs (openMarkup (t ++ lessThan :: rest)).2) = [] := by
  cases t with
  | nil => cases h
  | cons c t =>
    simp only [opensMarkup, Bool.or_eq_true, decide_eq_true_eq] at h
    rw [List.cons_append, openMarkup]
    split
    · exact .inr leadingText_emitTag
    next hletter =>
    split
    next hslash =>
      cases t with
      | nil => exact .inr rfl
      | cons d t =>
        rw [List.cons_append, openEndTag]
        split
        · exact .inr leadingText_emitTag
        split
        next hd => exact .inl ⟨t, by rw [hslash, hd], rfl⟩
        · exact .inr rfl
    next hslash =>
    split
    · unfold openDeclaration
      split <;> exact .inr rfl
    next hexclamation =>
    rw [if_pos (by simpa [hletter, hslash, hexclamation] using h)]
    exact .inr rfl

/-- A step takes a byte as it is, or reads something that weighs more than what it is read
as, or ends the text. -/
theorem step_cases (refs : References) (c : BitVec 8) (t rest : Bytes) :
    (step refs c (t ++ lessThan :: rest) = ([.text c], t ++ lessThan :: rest) ∧
      (Inert refs t → Inert refs (c :: t))) ∨
    (∃ d u, step refs c (t ++ lessThan :: rest) = (d.map .text, u ++ lessThan :: rest) ∧
      u.length ≤ t.length ∧ weight d + weight u < weight (c :: t)) ∨
    leadingText (tokens refs (c :: (t ++ lessThan :: rest))) = [] := by
  rw [tokens_cons, weight_cons]
  by_cases hmarkup : c = lessThan
  · subst hmarkup
    cases hopens : opensMarkup t with
    | false =>
      refine .inl ⟨?_, fun ht => ⟨fun _ => hopens, nofun, by decide, by decide, ht⟩⟩
      exact openMarkup_of_not_opens (by rw [opensMarkup_append, hopens])
    | true =>
      rcases openMarkup_of_opens refs rest hopens with ⟨u, rfl, hopen⟩ | hend
      · refine .inr (.inl ⟨[], u, hopen, ?_, ?_⟩)
        · simp only [List.length_cons]
          omega
        · have hpos := byteWeight_pos slash
          simp only [weight_nil, weight_cons]
          omega
      · exact .inr (.inr hend)
  by_cases hreference : c = ampersand
  · subst hreference
    cases hread : refs.read t with
    | none =>
      refine .inl ⟨?_, fun ht => ⟨nofun, fun _ => hread, by decide, by decide, ht⟩⟩
      rw [step, if_neg hmarkup, if_pos rfl, read_append_lessThan, hread]
    | some r =>
      refine .inr (.inl ⟨r.1, t.drop r.2, ?_, by simp, weight_read hread⟩)
      rw [step, if_neg hmarkup, if_pos rfl, read_append_lessThan, hread]
      dsimp only
      rw [List.drop_append_of_le_length (refs.length_read hread).2]
  by_cases hreturn : c = carriageReturn
  · subst hreturn
    rw [step, if_neg hmarkup, if_neg hreference, if_pos rfl]
    split
    · exact .inr (.inl ⟨[], t, rfl, Nat.le_refl _, by simp [byteWeight_pos]⟩)
    · refine .inr (.inl ⟨[newline], t, rfl, Nat.le_refl _, ?_⟩)
      have hweight : byteWeight newline < byteWeight carriageReturn := by decide
      simp only [weight_cons, weight_nil]
      omega
  by_cases hnull : c = 0
  · rw [step, if_neg hmarkup, if_neg hreference, if_neg hreturn, if_pos hnull]
    exact .inr (.inl ⟨[], t, rfl, Nat.le_refl _, by simp [byteWeight_pos]⟩)
  · refine .inl ⟨?_, fun ht => ⟨fun h => absurd h hmarkup, fun h => absurd h hreference, hreturn,
      hnull, ht⟩⟩
    rw [step, if_neg hmarkup, if_neg hreference, if_neg hreturn, if_neg hnull]

/-- In front of markup no text reads as more than itself, and one that is not inert reads
as less. -/
theorem weight_leadingText (refs : References) {t rest : Bytes}
    (hstop : leadingText (tokens refs (lessThan :: rest)) = []) :
    weight (leadingText (tokens refs (t ++ lessThan :: rest))) ≤ weight t ∧
      (¬Inert refs t → weight (leadingText (tokens refs (t ++ lessThan :: rest))) < weight t) := by
  induction hlength : t.length using Nat.strongRecOn generalizing t with
  | ind n ih =>
    cases t with
    | nil =>
      rw [List.nil_append, hstop]
      exact ⟨Nat.le_refl _, fun h => absurd trivial h⟩
    | cons c t =>
      rw [List.length_cons] at hlength
      rcases step_cases refs c t rest with ⟨hstep, hinert⟩ | ⟨d, u, hstep, hshorter, hless⟩ | hend
      · obtain ⟨hle, hlt⟩ := ih t.length (by omega) rfl
        rw [List.cons_append, tokens_cons, hstep]
        simp only [List.singleton_append, leadingText, weight_cons]
        exact ⟨by omega, fun h => by have := hlt fun ht => h (hinert ht); omega⟩
      · obtain ⟨hle, _⟩ := ih u.length (by omega) rfl
        rw [List.cons_append, tokens_cons, hstep]
        dsimp only
        rw [leadingText_append, weight_append]
        exact ⟨by omega, fun _ => by omega⟩
      · have hpos := byteWeight_pos c
        rw [List.cons_append, hend, weight_nil, weight_cons]
        exact ⟨by omega, fun _ => by omega⟩

end Step

/-! ## Texts written as fields and tags -/

/-- A tag name with the rest of the tag. -/
def isNamedTag : Bytes → Bool
  | [] => false
  | c :: t => isLetter c && scanTag .tagName t = some (t, [])

/-- A start tag or an end tag, by its source behind `<`. -/
def isTag : Bytes → Bool
  | [] => false
  | c :: t => if c = slash then isNamedTag t else isNamedTag (c :: t)

structure Tag where
  source : Bytes
  isTag : Html.isTag source = true := by decide

/-- A text and the tag behind it. -/
structure Segment where
  text : Bytes
  tag : Tag

def render (segments : List Segment) : Bytes :=
  segments.flatMap fun s => s.text ++ lessThan :: s.tag.source

/-- The tokens meant by the segments: the texts as they are, and the tags. -/
def intended (segments : List Segment) : List Token :=
  segments.flatMap fun s => s.text.map .text ++ [.markup s.tag.source]

@[simp] theorem render_append (a b : List Segment) : render (a ++ b) = render a ++ render b := by
  simp [render]

@[simp] theorem intended_append (a b : List Segment) :
    intended (a ++ b) = intended a ++ intended b := by
  simp [intended]

theorem markups_append (a b : List Token) : markups (a ++ b) = markups a ++ markups b := by
  simp [markups]

theorem markups_intended (segments : List Segment) :
    markups (intended segments) = segments.map fun s => s.tag.source := by
  have htext : ∀ t : Bytes, markups (t.map .text) = [] := by
    intro t
    simp [markups]
  induction segments with
  | nil => rfl
  | cons s segments ih =>
    rw [intended, List.flatMap_cons, markups_append, markups_append, htext, List.map_cons, ← ih]
    rfl

section Tags

variable {refs : References} {s s' : TagState} {t u rest : Bytes}

theorem scanTag_append (h : scanTag s t = some (u, [])) (rest : Bytes) :
    scanTag s (t ++ rest) = some (u, rest) := by
  induction t generalizing s u with
  | nil => cases h
  | cons c t ih =>
    rw [List.cons_append, scanTag]
    rw [scanTag] at h
    split
    next hend =>
      rw [if_pos hend] at h
      cases h
      rfl
    next hend =>
      rw [if_neg hend] at h
      obtain ⟨⟨v, w⟩, hv, hu⟩ := Option.map_eq_some_iff.mp h
      cases hu
      rw [ih hv]
      rfl

theorem openMarkup_of_isTag {source : Bytes} (htag : isTag source = true) (rest : Bytes) :
    openMarkup (source ++ rest) = ([.markup source], rest) := by
  cases source with
  | nil => cases htag
  | cons c t =>
    rw [isTag] at htag
    rw [List.cons_append, openMarkup]
    split at htag
    next hslash =>
      cases t with
      | nil => cases htag
      | cons d t =>
        simp only [isNamedTag, Bool.and_eq_true, decide_eq_true_eq] at htag
        rw [if_neg (by rw [hslash]; decide), if_pos hslash, List.cons_append, openEndTag,
          if_pos htag.1, scanTag_append htag.2, hslash]
        rfl
    next hslash =>
      simp only [isNamedTag, Bool.and_eq_true, decide_eq_true_eq] at htag
      rw [if_pos htag.1, scanTag_append htag.2]
      rfl

theorem tokens_tag (tag : Tag) (rest : Bytes) :
    tokens refs (lessThan :: (tag.source ++ rest)) = .markup tag.source :: tokens refs rest := by
  rw [tokens_cons, step, if_pos rfl, openMarkup_of_isTag tag.isTag]
  rfl

/-- Whatever the fields are, they are read as written exactly when each is inert; what
comes behind does not matter. -/
theorem tokens_render_iff (segments : List Segment) (rest : Bytes) (ts : List Token) :
    tokens refs (render segments ++ rest) = intended segments ++ ts ↔
      (∀ s ∈ segments, Inert refs s.text) ∧ tokens refs rest = ts := by
  induction segments with
  | nil => simp [render, intended]
  | cons s segments ih =>
    have hrender : render (s :: segments) ++ rest =
        s.text ++ lessThan :: (s.tag.source ++ (render segments ++ rest)) := by
      simp [render]
    have hintended : intended (s :: segments) ++ ts =
        s.text.map .text ++ .markup s.tag.source :: (intended segments ++ ts) := by
      simp [intended]
    rw [hrender, hintended, List.forall_mem_cons, and_assoc, ← ih]
    by_cases hinert : Inert refs s.text
    · rw [tokens_inert hinert, tokens_tag, List.append_cancel_left_eq, List.cons_inj_right]
      simp [hinert]
    · refine iff_of_false (fun heq => ?_) (fun h => hinert h.1)
      have hstop : leadingText (tokens refs
          (lessThan :: (s.tag.source ++ (render segments ++ rest)))) = [] := by
        rw [tokens_tag]
        rfl
      have hless := (weight_leadingText refs hstop).2 hinert
      rw [heq, leadingText_append, leadingText, List.append_nil] at hless
      · exact Nat.lt_irrefl _ hless
      · nofun

/-- The state that the text leads to when it does not end the tag. -/
def TagState.pass : TagState → Bytes → Option TagState
  | s, [] => some s
  | s, c :: t => if s.isEnd c then none else (s.next c).pass t

theorem scanTag_of_pass (h : s.pass t = some s') (hrest : scanTag s' u = some (u, [])) :
    scanTag s (t ++ u) = some (t ++ u, []) := by
  induction t generalizing s with
  | nil =>
    cases h
    exact hrest
  | cons c t ih =>
    rw [TagState.pass] at h
    split at h
    · cases h
    next hend =>
      rw [List.cons_append, scanTag, if_neg hend, ih h]
      rfl

theorem pass_doubleQuoted (h : doubleQuote ∉ t) :
    TagState.doubleQuoted.pass t = some .doubleQuoted := by
  induction t with
  | nil => rfl
  | cons c t ih =>
    rw [List.mem_cons, not_or] at h
    rw [TagState.pass, if_neg (by simp [TagState.isEnd, TagState.isQuoted]), TagState.next,
      if_neg (Ne.symm h.1)]
    exact ih h.2

/-- A tag name with attributes up to the opening quote of a value. -/
def opensValue : Bytes → Bool
  | [] => false
  | c :: t => isLetter c && TagState.tagName.pass t = some .doubleQuoted

theorem isTag_of_value {start value last : Bytes} (hstart : opensValue start = true)
    (hvalue : doubleQuote ∉ value) (hlast : scanTag .doubleQuoted last = some (last, [])) :
    isTag (start ++ (value ++ last)) = true := by
  cases start with
  | nil => cases hstart
  | cons c t =>
    simp only [opensValue, Bool.and_eq_true, decide_eq_true_eq] at hstart
    have hslash : c ≠ slash := by
      rintro rfl
      exact absurd hstart.1 (by decide)
    rw [List.cons_append, isTag, if_neg hslash, isNamedTag, hstart.1,
      scanTag_of_pass hstart.2 (scanTag_of_pass (pass_doubleQuoted hvalue) hlast)]
    simp

end Tags

/-! ## References by name -/

namespace References

/-- A name, and what it denotes. -/
def isEntry (e : Bytes × Bytes) : Bool :=
  e.1 ≠ [] && e.1.all isReferenceByte && e.2.length ≤ 8 &&
    (ampersand ∉ e.2 || e.2 = [ampersand])

theorem isPrefixOf_append {name t rest : Bytes} {c : BitVec 8}
    (hname : name.all isReferenceByte = true) (hc : isReferenceByte c = false) :
    name.isPrefixOf (t ++ c :: rest) = name.isPrefixOf t := by
  induction name generalizing t with
  | nil => simp
  | cons b name ih =>
    rw [List.all_cons, Bool.and_eq_true] at hname
    cases t with
    | nil =>
      have hne : b ≠ c := by
        rintro rfl
        rw [hc] at hname
        exact Bool.false_ne_true hname.1
      simp [List.isPrefixOf, hne]
    | cons d t => rw [List.cons_append, List.isPrefixOf, List.isPrefixOf, ih hname.2]

/-- The first name of the table that fits. -/
def readName (names : List (Bytes × Bytes)) (t : Bytes) : Option (Bytes × ℕ) :=
  (names.find? fun e => e.1.isPrefixOf t).map fun e => (e.2, e.1.length)

theorem readName_append {names : List (Bytes × Bytes)} (hnames : names.all isEntry = true)
    (t : Bytes) (c : BitVec 8) (rest : Bytes) (hc : isReferenceByte c = false) :
    readName names (t ++ c :: rest) = readName names t := by
  unfold readName
  congr 1
  induction names with
  | nil => rfl
  | cons e names ih =>
    simp only [List.all_cons, isEntry, Bool.and_eq_true] at hnames
    rw [List.find?_cons, List.find?_cons, isPrefixOf_append hnames.1.1.1.2 hc]
    split
    · rfl
    · apply ih
      simpa only [isEntry] using hnames.2

theorem readName_spec {names : List (Bytes × Bytes)} (hnames : names.all isEntry = true)
    {t d : Bytes} {n : ℕ} (h : readName names t = some (d, n)) :
    0 < n ∧ n ≤ t.length ∧ d.length ≤ 8 ∧ (ampersand ∈ d → d = [ampersand]) := by
  obtain ⟨⟨name, denoted⟩, hfind, heq⟩ := Option.map_eq_some_iff.mp h
  cases heq
  have hentry := List.all_eq_true.mp hnames _ (List.mem_of_find?_eq_some hfind)
  have hprefix : name.isPrefixOf t = true := by simpa using List.find?_some hfind
  simp only [isEntry, Bool.and_eq_true, decide_eq_true_eq, Bool.or_eq_true] at hentry
  obtain ⟨⟨⟨hne, _⟩, hlength⟩, hampersand⟩ := hentry
  refine ⟨List.length_pos_iff.mpr hne, ?_, hlength, fun hmem => ?_⟩
  · exact (List.isPrefixOf_iff_prefix.mp hprefix).length_le
  · exact hampersand.resolve_left fun hnot => hnot hmem

def ofNames (names : List (Bytes × Bytes)) (hnames : names.all isEntry = true) : References where
  read := readName names
  read_append := readName_append hnames
  length_read := fun h => ⟨(readName_spec hnames h).1, (readName_spec hnames h).2.1⟩
  length_le := fun h => (readName_spec hnames h).2.2.1
  ampersand_mem := fun h => (readName_spec hnames h).2.2.2

end References

end Html
