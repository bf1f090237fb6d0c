import MemSentry.Library.Numeral
import MemSentry.Library.Separated
import Mathlib.Data.List.TakeDrop

/-!
# JSON

JSON texts as bytes. `Element` is the grammar, with its whitespace; a number is kept as the
token it is and a string is its code units, a byte from 0x80 on being an ordinary character.
`parse` is a recursive descent parser that reads every text of the grammar (`parse_eq`), so
a text has at most one value.
-/

namespace Json

open Separated

abbrev Bytes := List (BitVec 8)

inductive Value
  | null
  | bool (b : Bool)
  | number (token : Bytes)
  | string (units : List ℕ)
  | array (items : List Value)
  | object (members : List (List ℕ × Value))

def quote : BitVec 8 := 0x22#8
def backslash : BitVec 8 := 0x5C#8
def comma : BitVec 8 := 0x2C#8
def colon : BitVec 8 := 0x3A#8
def blank : BitVec 8 := 0x20#8
def newline : BitVec 8 := 0x0A#8
def openBracket : BitVec 8 := 0x5B#8
def closeBracket : BitVec 8 := 0x5D#8
def openBrace : BitVec 8 := 0x7B#8
def closeBrace : BitVec 8 := 0x7D#8

def nullText : Bytes := [0x6E#8, 0x75#8, 0x6C#8, 0x6C#8]
def trueText : Bytes := [0x74#8, 0x72#8, 0x75#8, 0x65#8]
def falseText : Bytes := [0x66#8, 0x61#8, 0x6C#8, 0x73#8, 0x65#8]

/-- Blank, tab, line feed, carriage return. -/
def isSpace (c : BitVec 8) : Bool := c = 0x20#8 || c = 0x09#8 || c = 0x0A#8 || c = 0x0D#8

def Blank (t : Bytes) : Prop := ∀ c ∈ t, isSpace c = true

/-! ## Numbers -/

def isDigit (c : BitVec 8) : Bool := 48 ≤ c.toNat && c.toNat ≤ 57

/-- What has been read of a number: the sign, the integer part, the fraction, the exponent. -/
inductive NumberState
  | start
  | minus
  | zero
  | int
  | point
  | frac
  | exp
  | expSign
  | expDigits
  deriving DecidableEq

namespace NumberState

def lead (c : BitVec 8) : Option NumberState :=
  if c = 0x30#8 then some zero else if isDigit c then some int else none

def afterFrac (c : BitVec 8) : Option NumberState :=
  if c = 0x65#8 ∨ c = 0x45#8 then some exp else none

def afterInt (c : BitVec 8) : Option NumberState :=
  if c = 0x2E#8 then some point else afterFrac c

def next : NumberState → BitVec 8 → Option NumberState
  | start, c => if c = 0x2D#8 then some minus else lead c
  | minus, c => lead c
  | zero, c => afterInt c
  | int, c => if isDigit c then some int else afterInt c
  | point, c => if isDigit c then some frac else none
  | frac, c => if isDigit c then some frac else afterFrac c
  | exp, c =>
    if c = 0x2B#8 ∨ c = 0x2D#8 then some expSign else if isDigit c then some expDigits else none
  | expSign, c => if isDigit c then some expDigits else none
  | expDigits, c => if isDigit c then some expDigits else none

def accepts : NumberState → Bool
  | zero | int | frac | expDigits => true
  | _ => false

/-- The text takes the state to one in which the number may end. -/
def run : NumberState → Bytes → Bool
  | s, [] => s.accepts
  | s, c :: t =>
    match s.next c with
    | some s' => run s' t
    | none => false

end NumberState

def isNumber (t : Bytes) : Bool := NumberState.start.run t

/-- The bytes that occur in numbers. -/
def isNumberByte (c : BitVec 8) : Bool :=
  isDigit c || c = 0x2D#8 || c = 0x2B#8 || c = 0x2E#8 || c = 0x65#8 || c = 0x45#8

/-! ## The grammar -/

/-- The escapes of two characters. -/
def shortEscape (c : BitVec 8) : Option ℕ :=
  if c = quote then some 0x22
  else if c = backslash then some 0x5C
  else if c = 0x2F#8 then some 0x2F
  else if c = 0x62#8 then some 0x08
  else if c = 0x66#8 then some 0x0C
  else if c = 0x6E#8 then some 0x0A
  else if c = 0x72#8 then some 0x0D
  else if c = 0x74#8 then some 0x09
  else none

/-- What stands between the quotes, and the code units that it denotes. -/
inductive Chars : Bytes → List ℕ → Prop
  | nil : Chars [] []
  | plain {c : BitVec 8} {t : Bytes} {us : List ℕ} (hc : 0x20 ≤ c.toNat) (hquote : c ≠ quote)
    (hbackslash : c ≠ backslash) (h : Chars t us) : Chars (c :: t) (c.toNat :: us)
  | short {c : BitVec 8} {u : ℕ} {t : Bytes} {us : List ℕ} (hc : shortEscape c = some u)
    (h : Chars t us) : Chars (backslash :: c :: t) (u :: us)
  | unicode {a b c d : BitVec 8} {u : ℕ} {t : Bytes} {us : List ℕ}
    (hu : Numeral.read 16 [a, b, c, d] = some u) (h : Chars t us) :
    Chars (backslash :: 0x75#8 :: a :: b :: c :: d :: t) (u :: us)

/-- The name of a member, with the colon. -/
inductive Key : Bytes → List ℕ → Prop
  | intro {before t after : Bytes} {us : List ℕ} (hbefore : Blank before) (h : Chars t us)
    (hafter : Blank after) : Key (before ++ quote :: (t ++ quote :: (after ++ [colon]))) us

/-- The texts and the values of a member. -/
structure Member where
  key : Bytes
  name : List ℕ
  body : Bytes
  value : Value

def Member.text (m : Member) : Bytes := m.key ++ m.body

def Member.pair (m : Member) : List ℕ × Value := (m.name, m.value)

inductive Element : Bytes → Value → Prop
  | padded {before t after : Bytes} {v : Value} (hbefore : Blank before) (hafter : Blank after)
    (h : Element t v) : Element (before ++ t ++ after) v
  | nullLiteral : Element nullText .null
  | trueLiteral : Element trueText (.bool true)
  | falseLiteral : Element falseText (.bool false)
  | number {t : Bytes} (h : isNumber t = true) : Element t (.number t)
  | string {t : Bytes} {us : List ℕ} (h : Chars t us) :
    Element (quote :: (t ++ [quote])) (.string us)
  | emptyArray {blank : Bytes} (h : Blank blank) :
    Element (openBracket :: (blank ++ [closeBracket])) (.array [])
  | array {items : List (Bytes × Value)} (hne : items ≠ [])
    (h : ∀ item ∈ items, Element item.1 item.2) :
    Element (openBracket :: ([comma].intercalate (items.map Prod.fst) ++ [closeBracket]))
      (.array (items.map Prod.snd))
  | emptyObject {blank : Bytes} (h : Blank blank) :
    Element (openBrace :: (blank ++ [closeBrace])) (.object [])
  | object {members : List Member} (hne : members ≠ []) (hkey : ∀ m ∈ members, Key m.key m.name)
    (h : ∀ m ∈ members, Element m.body m.value) :
    Element (openBrace :: ([comma].intercalate (members.map Member.text) ++ [closeBrace]))
      (.object (members.map Member.pair))

/-! ## The parser -/

def skip (t : Bytes) : Bytes := t.dropWhile isSpace

/-- Up to the closing quote. -/
def chars : Bytes → Option (List ℕ × Bytes)
  | [] => none
  | c :: t =>
    if c = quote then some ([], t)
    else if c = backslash then
      match t with
      | [] => none
      | e :: t =>
        if e = 0x75#8 then
          match t with
          | a :: b :: c :: d :: t =>
            match Numeral.read 16 [a, b, c, d] with
            | some u => (chars t).map fun r => (u :: r.1, r.2)
            | none => none
          | _ => none
        else
          match shortEscape e with
          | some u => (chars t).map fun r => (u :: r.1, r.2)
          | none => none
    else if c.toNat < 0x20 then none
    else (chars t).map fun r => (c.toNat :: r.1, r.2)

def number (t : Bytes) : Option (Value × Bytes) :=
  match t.span isNumberByte with
  | (token, rest) => if isNumber token then some (.number token, rest) else none

def literal (t : Bytes) : Option (Value × Bytes) :=
  if nullText <+: t then some (.null, t.drop nullText.length)
  else if trueText <+: t then some (.bool true, t.drop trueText.length)
  else if falseText <+: t then some (.bool false, t.drop falseText.length)
  else none

/-- Items with commas between them, up to the closing character. An item takes the
whitespace on both of its sides. -/
def items {α : Type} (item : Bytes → Option (α × Bytes)) (close : BitVec 8) :
    ℕ → Bytes → Option (List α × Bytes)
  | 0, _ => none
  | n + 1, t =>
    match item t with
    | none => none
    | some (x, rest) =>
      match rest with
      | [] => none
      | c :: rest =>
        if c = comma then (items item close n rest).map fun r => (x :: r.1, r.2)
        else if c = close then some ([x], rest)
        else none

/-- No items at all, or some. -/
def list {α : Type} (item : Bytes → Option (α × Bytes)) (close : BitVec 8) (t : Bytes) :
    Option (List α × Bytes) :=
  match skip t with
  | [] => none
  | c :: rest => if c = close then some ([], rest) else items item close t.length t

def member (element : Bytes → Option (Value × Bytes)) (t : Bytes) :
    Option ((List ℕ × Value) × Bytes) :=
  match skip t with
  | [] => none
  | c :: t =>
    if c = quote then
      match chars t with
      | none => none
      | some (us, t) =>
        match skip t with
        | [] => none
        | c :: t =>
          if c = colon then (element t).map fun r => ((us, r.1), r.2) else none
    else none

def value (element : Bytes → Option (Value × Bytes)) : Bytes → Option (Value × Bytes)
  | [] => none
  | c :: t =>
    if c = quote then (chars t).map fun r => (.string r.1, r.2)
    else if c = openBracket then (list element closeBracket t).map fun r => (.array r.1, r.2)
    else if c = openBrace then (list (member element) closeBrace t).map fun r => (.object r.1, r.2)
    else if isNumberByte c then number (c :: t)
    else literal (c :: t)

/-- A value with whitespace around it; each level of nesting takes one unit of fuel. -/
def element : ℕ → Bytes → Option (Value × Bytes)
  | 0, _ => none
  | fuel + 1, t => (value (element fuel) (skip t)).map fun r => (r.1, skip r.2)

def parse (t : Bytes) : Option Value :=
  match element (t.length + 1) t with
  | some (v, []) => some v
  | _ => none

/-! ## Scanners -/

/-- A number cannot go on here. -/
def Stop : Bytes → Prop
  | [] => True
  | c :: _ => isNumberByte c = false

section Scanners

variable {t rest before : Bytes} {c : BitVec 8}

theorem isNumberByte_of_isDigit (h : isDigit c = true) : isNumberByte c = true := by
  simp [isNumberByte, h]

namespace NumberState

variable {s s' : NumberState}

theorem isNumberByte_of_lead (h : lead c = some s') : isNumberByte c = true := by
  unfold lead at h
  split at h
  · rename_i hzero
    rw [hzero]
    rfl
  · split at h
    · rename_i hdigit
      exact isNumberByte_of_isDigit hdigit
    · cases h

theorem isNumberByte_of_afterFrac (h : afterFrac c = some s') : isNumberByte c = true := by
  unfold afterFrac at h
  split at h
  · rename_i hexp
    rcases hexp with rfl | rfl
    · rfl
    · rfl
  · cases h

theorem isNumberByte_of_afterInt (h : afterInt c = some s') : isNumberByte c = true := by
  unfold afterInt at h
  split at h
  · rename_i hpoint
    rw [hpoint]
    rfl
  · exact isNumberByte_of_afterFrac h

theorem isNumberByte_of_digit {r : NumberState} {o : Option NumberState}
    (ho : o = some s' → isNumberByte c = true)
    (h : (if isDigit c then some r else o) = some s') : isNumberByte c = true := by
  split at h
  · rename_i hdigit
    exact isNumberByte_of_isDigit hdigit
  · exact ho h

/-- A number consists of such bytes. -/
theorem isNumberByte_of_next (h : s.next c = some s') : isNumberByte c = true := by
  have hnone : (none : Option NumberState) = some s' → isNumberByte c = true := fun h => by cases h
  cases s with
  | start =>
    simp only [next] at h
    split at h
    · rename_i hminus
      rw [hminus]
      rfl
    · exact isNumberByte_of_lead h
  | minus => exact isNumberByte_of_lead h
  | zero => exact isNumberByte_of_afterInt h
  | int => exact isNumberByte_of_digit isNumberByte_of_afterInt h
  | frac => exact isNumberByte_of_digit isNumberByte_of_afterFrac h
  | exp =>
    simp only [next] at h
    split at h
    · rename_i hsign
      rcases hsign with rfl | rfl
      · rfl
      · rfl
    · exact isNumberByte_of_digit hnone h
  | point => exact isNumberByte_of_digit hnone h
  | expSign => exact isNumberByte_of_digit hnone h
  | expDigits => exact isNumberByte_of_digit hnone h

theorem isNumberByte_of_run (h : s.run t = true) : ∀ c ∈ t, isNumberByte c = true := by
  induction t generalizing s with
  | nil => exact fun c hc => absurd hc List.not_mem_nil
  | cons d t ih =>
    rw [run] at h
    cases hnext : s.next d with
    | none =>
      rw [hnext] at h
      cases h
    | some s' =>
      rw [hnext] at h
      rintro c (_ | ⟨_, hc⟩)
      · exact isNumberByte_of_next hnext
      · exact ih h c hc

end NumberState

theorem number_append (h : isNumber t = true) (hstop : Stop rest) :
    number (t ++ rest) = some (.number t, rest) := by
  have hbytes := NumberState.isNumberByte_of_run h
  have hrest : rest.takeWhile isNumberByte = [] ∧ rest.dropWhile isNumberByte = rest := by
    cases rest with
    | nil => exact ⟨rfl, rfl⟩
    | cons c rest =>
      have hc : isNumberByte c = false := hstop
      simp [hc]
  unfold number
  rw [List.span_eq_takeWhile_dropWhile, List.takeWhile_append_of_pos hbytes,
    List.dropWhile_append_of_pos hbytes, hrest.1, hrest.2, List.append_nil]
  exact if_pos h

/-- A number begins with one of its bytes. -/
theorem exists_cons_of_isNumber (h : isNumber t = true) :
    ∃ c t', t = c :: t' ∧ isNumberByte c = true := by
  cases t with
  | nil => cases h
  | cons c t => exact ⟨c, t, rfl, NumberState.isNumberByte_of_run h c List.mem_cons_self⟩

theorem isNumberByte_of_isSpace (h : isSpace c = true) : isNumberByte c = false := by
  revert c
  decide

theorem isSpace_of_isNumberByte (h : isNumberByte c = true) : isSpace c = false := by
  rw [← Bool.not_eq_true]
  intro hspace
  rw [isNumberByte_of_isSpace hspace] at h
  cases h

theorem skip_append (h : Blank before) (t : Bytes) : skip (before ++ t) = skip t :=
  List.dropWhile_append_of_pos h

theorem skip_cons (h : isSpace c = false) (t : Bytes) : skip (c :: t) = c :: t := by
  simp [skip, h]

theorem stop_append (h : Blank before) (hstop : Stop rest) : Stop (before ++ rest) := by
  cases before with
  | nil => exact hstop
  | cons c before => exact isNumberByte_of_isSpace (h c List.mem_cons_self)

theorem chars_quote (t : Bytes) : chars (quote :: t) = some ([], t) := by
  rw [chars.eq_def]
  exact if_pos rfl

theorem chars_plain (hc : 0x20 ≤ c.toNat) (hquote : c ≠ quote) (hbackslash : c ≠ backslash) :
    chars (c :: t) = (chars t).map fun r => (c.toNat :: r.1, r.2) := by
  rw [chars.eq_def]
  simp only
  rw [if_neg hquote, if_neg hbackslash, if_neg (by omega)]

theorem chars_short {u : ℕ} (hc : shortEscape c = some u) :
    chars (backslash :: c :: t) = (chars t).map fun r => (u :: r.1, r.2) := by
  have hne : c ≠ 0x75#8 := by
    rintro rfl
    cases hc
  rw [chars.eq_def]
  simp only
  rw [if_neg (by decide), if_pos trivial, if_neg hne, hc]

theorem chars_unicode {a b c d : BitVec 8} {u : ℕ} (hu : Numeral.read 16 [a, b, c, d] = some u) :
    chars (backslash :: 0x75#8 :: a :: b :: c :: d :: t) =
      (chars t).map fun r => (u :: r.1, r.2) := by
  rw [chars.eq_def]
  simp only
  rw [if_neg (by decide), if_pos trivial, if_pos trivial, hu]

/-- The characters of a string, up to the closing quote. -/
theorem chars_append {us : List ℕ} (h : Chars t us) (rest : Bytes) :
    chars (t ++ quote :: rest) = some (us, rest) := by
  induction h with
  | nil => exact chars_quote rest
  | plain hc hquote hbackslash _ ih =>
    rw [List.cons_append, chars_plain hc hquote hbackslash, ih, Option.map_some]
  | short hc _ ih =>
    rw [List.cons_append, List.cons_append, chars_short hc, ih, Option.map_some]
  | unicode hu _ ih =>
    simp only [List.cons_append]
    rw [chars_unicode hu, ih, Option.map_some]

end Scanners

/-! ## The parser reads the grammar -/

section Lists

variable {α : Type} {item : Bytes → Option (α × Bytes)} {close : BitVec 8} {xs : List (Bytes × α)}

theorem items_intercalate (hclose : close ≠ comma) (hstop : isNumberByte close = false)
    (hspace : isSpace close = false) (hne : xs ≠ [])
    (h : ∀ x ∈ xs, ∀ rest, Stop rest → item (x.1 ++ rest) = some (x.2, skip rest))
    (rest : Bytes) {n : ℕ} (hn : xs.length ≤ n) :
    items item close n ([comma].intercalate (xs.map Prod.fst) ++ close :: rest) =
      some (xs.map Prod.snd, rest) := by
  induction xs generalizing n with
  | nil => exact absurd rfl hne
  | cons x xs ih =>
    obtain ⟨n, rfl⟩ : ∃ m, n = m + 1 := ⟨n - 1, by rw [List.length_cons] at hn; omega⟩
    cases xs with
    | nil =>
      have hx := h x List.mem_cons_self (close :: rest) hstop
      rw [skip_cons hspace] at hx
      simp [items, hx, hclose]
    | cons y xs =>
      have hx := h x List.mem_cons_self
        (comma :: ([comma].intercalate ((y :: xs).map Prod.fst) ++ close :: rest)) rfl
      rw [skip_cons rfl] at hx
      have hrest := ih (List.cons_ne_nil _ _) (fun z hz => h z (List.mem_cons_of_mem _ hz))
        (Nat.le_of_succ_le_succ hn)
      rw [List.map_cons] at hrest hx
      rw [List.map_cons, List.map_cons, List.intercalate_cons_cons, List.append_assoc,
        List.append_assoc, List.singleton_append, items, hx]
      simp only
      rw [if_pos trivial, hrest]
      rfl

/-- A list with items, whose first one does not look like the end of the list. -/
theorem list_intercalate (hclose : close ≠ comma) (hstop : isNumberByte close = false)
    (hspace : isSpace close = false) (hne : xs ≠ [])
    (hfirst : ∀ x ∈ xs, ∀ rest, ∃ c t, skip (x.1 ++ rest) = c :: t ∧ c ≠ close)
    (h : ∀ x ∈ xs, ∀ rest, Stop rest → item (x.1 ++ rest) = some (x.2, skip rest))
    (rest : Bytes) :
    list item close ([comma].intercalate (xs.map Prod.fst) ++ close :: rest) =
      some (xs.map Prod.snd, rest) := by
  have hlength : xs.length ≤ ([comma].intercalate (xs.map Prod.fst) ++ close :: rest).length := by
    have hcount := count_le_intercalate comma (xs.map Prod.fst)
    rw [List.length_map] at hcount
    rw [List.length_append, List.length_cons]
    omega
  have hitems := items_intercalate hclose hstop hspace hne h rest hlength
  cases xs with
  | nil => exact absurd rfl hne
  | cons x xs =>
    obtain ⟨c, t, hskip, hc⟩ := hfirst x List.mem_cons_self
      ((xs.map Prod.fst).flatMap (fun y => [comma] ++ y) ++ close :: rest)
    rw [← List.append_assoc, ← intercalate_cons] at hskip
    rw [List.map_cons] at hitems ⊢
    unfold list
    rw [hskip]
    simp only
    rw [if_neg hc, hitems]

theorem list_blank {blank : Bytes} (hblank : Blank blank) (hspace : isSpace close = false)
    (rest : Bytes) : list item close (blank ++ close :: rest) = some ([], rest) := by
  unfold list
  rw [skip_append hblank, skip_cons hspace]
  exact if_pos rfl

end Lists

/-- A member's name begins with a quote. -/
theorem Key.skip_eq {key : Bytes} {us : List ℕ} (h : Key key us) (t : Bytes) :
    ∃ t', skip (key ++ t) = quote :: t' := by
  obtain ⟨hbefore, _, _⟩ := h
  rw [List.append_assoc, skip_append hbefore, List.cons_append, skip_cons rfl]
  exact ⟨_, rfl⟩

theorem member_append {element : Bytes → Option (Value × Bytes)} {key t : Bytes} {us : List ℕ}
    (h : Key key us) :
    member element (key ++ t) = (element t).map fun r => ((us, r.1), r.2) := by
  obtain ⟨hbefore, hchars, hafter⟩ := h
  unfold member
  rw [List.append_assoc, skip_append hbefore, List.cons_append, skip_cons rfl]
  simp only
  rw [if_pos trivial, List.append_assoc, List.cons_append, List.append_assoc, chars_append hchars]
  simp only
  rw [skip_append hafter, List.singleton_append, skip_cons rfl]
  exact if_pos rfl

/-- The value of a text begins neither like the end of an array nor like more whitespace. -/
theorem Element.skip_eq {t : Bytes} {v : Value} (h : Element t v) (rest : Bytes) :
    ∃ c t', skip (t ++ rest) = c :: t' ∧ c ≠ closeBracket := by
  induction h generalizing rest with
  | padded hbefore _ _ ih =>
    rw [List.append_assoc, List.append_assoc, skip_append hbefore]
    exact ih _
  | nullLiteral => exact ⟨_, _, skip_cons rfl _, by decide⟩
  | trueLiteral => exact ⟨_, _, skip_cons rfl _, by decide⟩
  | falseLiteral => exact ⟨_, _, skip_cons rfl _, by decide⟩
  | number hnumber =>
    obtain ⟨c, t, rfl, hc⟩ := exists_cons_of_isNumber hnumber
    refine ⟨c, t ++ rest, skip_cons (isSpace_of_isNumberByte hc) _, ?_⟩
    rintro rfl
    cases hc
  | string _ => exact ⟨_, _, skip_cons rfl _, by decide⟩
  | emptyArray _ => exact ⟨_, _, skip_cons rfl _, by decide⟩
  | array _ _ _ => exact ⟨_, _, skip_cons rfl _, by decide⟩
  | emptyObject _ => exact ⟨_, _, skip_cons rfl _, by decide⟩
  | object _ _ _ _ => exact ⟨_, _, skip_cons rfl _, by decide⟩

theorem element_succ (fuel : ℕ) (t : Bytes) :
    element (fuel + 1) t = (value (element fuel) (skip t)).map fun r => (r.1, skip r.2) := rfl

theorem element_blank {before : Bytes} (h : Blank before) (fuel : ℕ) (t : Bytes) :
    element fuel (before ++ t) = element fuel t := by
  cases fuel with
  | zero => rfl
  | succ fuel => rw [element_succ, element_succ, skip_append h]

theorem value_number {element : Bytes → Option (Value × Bytes)} {t rest : Bytes}
    (h : isNumber t = true) (hstop : Stop rest) :
    value element (t ++ rest) = some (.number t, rest) := by
  have happend := number_append h hstop
  obtain ⟨c, t, rfl, hc⟩ := exists_cons_of_isNumber h
  have hne : ∀ d, isNumberByte d = false → c ≠ d := by
    rintro d hd rfl
    rw [hc] at hd
    cases hd
  rw [List.cons_append, value, if_neg (hne quote rfl), if_neg (hne openBracket rfl),
    if_neg (hne openBrace rfl), if_pos hc]
  exact happend

theorem element_of_value {fuel : ℕ} {t rest : Bytes} {c : BitVec 8} {v : Value}
    (hspace : isSpace c = false) (h : value (element fuel) (c :: t) = some (v, rest)) :
    element (fuel + 1) (c :: t) = some (v, skip rest) := by
  rw [element_succ, skip_cons hspace, h]
  rfl

theorem value_array {element : Bytes → Option (Value × Bytes)} {t rest : Bytes} {xs : List Value}
    (h : list element closeBracket t = some (xs, rest)) :
    value element (openBracket :: t) = some (.array xs, rest) := by
  rw [value, if_neg (by decide), if_pos rfl, h]
  rfl

theorem value_object {element : Bytes → Option (Value × Bytes)} {t rest : Bytes}
    {xs : List (List ℕ × Value)} (h : list (member element) closeBrace t = some (xs, rest)) :
    value element (openBrace :: t) = some (.object xs, rest) := by
  rw [value, if_neg (by decide), if_neg (by decide), if_pos rfl, h]
  rfl

/-- With fuel for its length, the parser reads a text of the grammar and the whitespace
behind it. -/
theorem element_append {t : Bytes} {v : Value} (h : Element t v) {rest : Bytes} (hstop : Stop rest)
    {fuel : ℕ} (hfuel : t.length ≤ fuel) : element (fuel + 1) (t ++ rest) = some (v, skip rest) := by
  induction h generalizing rest fuel with
  | @padded before t after v hbefore hafter _ ih =>
    have hlength : t.length ≤ fuel := by
      simp only [List.length_append] at hfuel
      omega
    rw [List.append_assoc, List.append_assoc, element_blank hbefore,
      ih (stop_append hafter hstop) hlength, skip_append hafter]
  | nullLiteral => rfl
  | trueLiteral => rfl
  | falseLiteral => rfl
  | number hnumber =>
    have hvalue := @value_number (element fuel) _ _ hnumber hstop
    obtain ⟨c, t, rfl, hc⟩ := exists_cons_of_isNumber hnumber
    exact element_of_value (isSpace_of_isNumberByte hc) hvalue
  | string hchars =>
    rw [List.cons_append, List.append_assoc, List.singleton_append]
    apply element_of_value rfl
    rw [value, if_pos rfl, chars_append hchars]
    rfl
  | emptyArray hblank =>
    rw [List.cons_append, List.append_assoc, List.singleton_append]
    apply element_of_value rfl
    exact value_array (list_blank hblank rfl rest)
  | @array items hne helements ih =>
    simp only [List.length_cons, List.length_append] at hfuel
    obtain ⟨fuel, rfl⟩ : ∃ m, fuel = m + 1 := ⟨fuel - 1, by omega⟩
    rw [List.cons_append, List.append_assoc, List.singleton_append]
    apply element_of_value rfl
    apply value_array
    apply list_intercalate (by decide) rfl rfl hne
    · exact fun item hitem => (helements item hitem).skip_eq
    · intro item hitem rest hstop
      have hlength := @length_le_intercalate _ comma _ _ (List.mem_map_of_mem (f := Prod.fst) hitem)
      exact ih item hitem hstop (by omega)
  | emptyObject hblank =>
    rw [List.cons_append, List.append_assoc, List.singleton_append]
    apply element_of_value rfl
    exact value_object (list_blank hblank rfl rest)
  | @object members hne hkey helements ih =>
    simp only [List.length_cons, List.length_append] at hfuel
    obtain ⟨fuel, rfl⟩ : ∃ m, fuel = m + 1 := ⟨fuel - 1, by omega⟩
    have hlist : list (member (element (fuel + 1))) closeBrace
        ([comma].intercalate ((members.map fun m => (m.text, m.pair)).map Prod.fst) ++
          closeBrace :: rest) =
        some ((members.map fun m => (m.text, m.pair)).map Prod.snd, rest) := by
      apply list_intercalate (by decide) rfl rfl
      · simpa using hne
      · intro x hx rest
        obtain ⟨m, hm, rfl⟩ := List.mem_map.mp hx
        obtain ⟨t, ht⟩ := (hkey m hm).skip_eq (m.body ++ rest)
        refine ⟨quote, t, ?_, by decide⟩
        rw [Member.text, List.append_assoc]
        exact ht
      · intro x hx rest hstop
        obtain ⟨m, hm, rfl⟩ := List.mem_map.mp hx
        have htext := @length_le_intercalate _ comma _ _ (List.mem_map_of_mem (f := Member.text) hm)
        have hbody : m.text.length = m.key.length + m.body.length := List.length_append
        rw [Member.text, List.append_assoc, member_append (hkey m hm), ih m hm hstop (by omega)]
        rfl
    rw [List.map_map, List.map_map] at hlist
    rw [List.cons_append, List.append_assoc, List.singleton_append]
    apply element_of_value rfl
    exact value_object hlist

/-- Every text of the grammar is read, so it has no other value. -/
theorem parse_eq {t : Bytes} {v : Value} (h : Element t v) : parse t = some v := by
  have hread := @element_append _ _ h [] trivial _ (Nat.le_refl t.length)
  rw [List.append_nil] at hread
  unfold parse
  rw [hread]
  rfl

/-! ## Writing -/

/-- The elements of an array: one, or one, a comma and further ones. -/
inductive Elements : Bytes → List Value → Prop
  | last {t : Bytes} {v : Value} (h : Element t v) : Elements t [v]
  | cons {t ts : Bytes} {v : Value} {vs : List Value} (h : Element t v) (hs : Elements ts vs) :
    Elements (t ++ comma :: ts) (v :: vs)

/-- The members of an object. -/
inductive Members : Bytes → List (List ℕ × Value) → Prop
  | last {key t : Bytes} {us : List ℕ} {v : Value} (hkey : Key key us) (h : Element t v) :
    Members (key ++ t) [(us, v)]
  | cons {key t ts : Bytes} {us : List ℕ} {v : Value} {vs : List (List ℕ × Value)}
    (hkey : Key key us) (h : Element t v) (hs : Members ts vs) :
    Members (key ++ (t ++ comma :: ts)) ((us, v) :: vs)

section Writing

variable {t blank : Bytes}

theorem Element.after {v : Value} (h : Element t v) (hafter : Blank blank) :
    Element (t ++ blank) v :=
  .padded (fun _ hc => absurd hc List.not_mem_nil) hafter h

theorem Element.before {v : Value} (h : Element t v) (hbefore : Blank blank) :
    Element (blank ++ t) v := by
  have hpadded := Element.padded hbefore (fun _ hc => absurd hc List.not_mem_nil) h
  rwa [List.append_nil] at hpadded

theorem Elements.after {vs : List Value} (h : Elements t vs) (hafter : Blank blank) :
    Elements (t ++ blank) vs := by
  induction h with
  | last h => exact .last (h.after hafter)
  | cons h _ ih =>
    rw [List.append_assoc, List.cons_append]
    exact .cons h ih

theorem Members.after {vs : List (List ℕ × Value)} (h : Members t vs) (hafter : Blank blank) :
    Members (t ++ blank) vs := by
  induction h with
  | last hkey h =>
    rw [List.append_assoc]
    exact .last hkey (h.after hafter)
  | cons hkey h _ ih =>
    rw [List.append_assoc, List.append_assoc, List.cons_append]
    exact .cons hkey h ih

theorem Elements.exists_items {vs : List Value} (h : Elements t vs) :
    ∃ items : List (Bytes × Value), items ≠ [] ∧ (∀ item ∈ items, Element item.1 item.2) ∧
      t = [comma].intercalate (items.map Prod.fst) ∧ vs = items.map Prod.snd := by
  induction h with
  | @last t v h => exact ⟨[(t, v)], by simp, by simpa using h, by simp, rfl⟩
  | @cons t ts v vs h _ ih =>
    obtain ⟨items, hne, hitems, rfl, rfl⟩ := ih
    refine ⟨(t, v) :: items, by simp, by simpa using ⟨h, fun a b hmem => hitems (a, b) hmem⟩, ?_, rfl⟩
    cases items with
    | nil => exact absurd rfl hne
    | cons item items => simp [List.intercalate_cons_cons]

theorem Members.exists_members {vs : List (List ℕ × Value)} (h : Members t vs) :
    ∃ members : List Member, members ≠ [] ∧ (∀ m ∈ members, Key m.key m.name) ∧
      (∀ m ∈ members, Element m.body m.value) ∧
      t = [comma].intercalate (members.map Member.text) ∧ vs = members.map Member.pair := by
  induction h with
  | @last key t us v hkey h =>
    exact ⟨[⟨key, us, t, v⟩], by simp, by simpa using hkey, by simpa using h, by simp [Member.text],
      rfl⟩
  | @cons key t ts us v vs hkey h _ ih =>
    obtain ⟨members, hne, hkeys, hbodies, rfl, rfl⟩ := ih
    refine ⟨⟨key, us, t, v⟩ :: members, by simp, by simpa using ⟨hkey, hkeys⟩,
      by simpa using ⟨h, hbodies⟩, ?_, rfl⟩
    cases members with
    | nil => exact absurd rfl hne
    | cons m members => simp [List.intercalate_cons_cons, Member.text]

theorem Elements.element {vs : List Value} (h : Elements t vs) :
    Element (openBracket :: (t ++ [closeBracket])) (.array vs) := by
  obtain ⟨items, hne, hitems, rfl, rfl⟩ := h.exists_items
  exact .array hne hitems

theorem Members.element {vs : List (List ℕ × Value)} (h : Members t vs) :
    Element (openBrace :: (t ++ [closeBrace])) (.object vs) := by
  obtain ⟨members, hne, hkeys, hbodies, rfl, rfl⟩ := h.exists_members
  exact .object hne hkeys hbodies

/-- The bytes that need no escape. -/
def isPlain (c : BitVec 8) : Bool := 0x20 ≤ c.toNat && c != quote && c != backslash

theorem Chars.of_plain (h : ∀ c ∈ t, isPlain c = true) : Chars t (t.map BitVec.toNat) := by
  induction t with
  | nil => exact .nil
  | cons c t ih =>
    have hc := h c List.mem_cons_self
    simp only [isPlain, Bool.and_eq_true, decide_eq_true_eq, bne_iff_ne] at hc
    exact .plain hc.1.1 hc.1.2 hc.2 (ih fun d hd => h d (List.mem_cons_of_mem _ hd))

theorem run_int (h : ∀ c ∈ t, isDigit c = true) : NumberState.run .int t = true := by
  induction t with
  | nil => rfl
  | cons c t ih =>
    rw [NumberState.run, NumberState.next, if_pos (h c List.mem_cons_self)]
    exact ih fun d hd => h d (List.mem_cons_of_mem _ hd)

theorem isNumber_write (n : ℕ) : isNumber (Numeral.write 10 n) = true := by
  have hdigit : ∀ d : Fin 10, isDigit (Numeral.ofChar (Nat.digitChar d)) = true ∧
      NumberState.start.next (Numeral.ofChar (Nat.digitChar d)) =
        some (if d = 0 then NumberState.zero else NumberState.int) := by decide
  obtain ⟨d, ds, hwrite, hd, hzero, hds⟩ := Numeral.write_eq_cons (by omega : 1 < 10) n
  rw [hwrite, isNumber, NumberState.run, (hdigit ⟨d, hd⟩).2]
  by_cases h0 : d = 0
  · subst h0
    rw [(hzero rfl).2]
    rfl
  · have hne : (⟨d, hd⟩ : Fin 10) ≠ 0 := fun h => h0 (congrArg Fin.val h)
    rw [if_neg hne]
    apply run_int
    intro c hc
    obtain ⟨e, he, rfl⟩ := hds c hc
    exact (hdigit ⟨e, he⟩).1

end Writing

end Json
