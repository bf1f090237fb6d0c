import MemSentry.Library.Xml
import Mathlib.Algebra.GroupWithZero.Nat
import Mathlib.Data.List.Forall2
import Mathlib.Data.List.TakeWhile

/-!
# XML documents

The fragment of XML without declarations, comments, processing instructions and marked
sections. `read` finds the tags of a text, with the character data behind each; `WellFormed`
says that the tags are those of one element.

The second half is about texts that are written as tags and fields in turn: what is written
is read with the tags meant exactly when every field is character data (`read_render_iff`).
-/

namespace Xml

inductive Tag
  | start (name : Bytes) (attributes : List (Bytes × Bytes))
  | empty (name : Bytes) (attributes : List (Bytes × Bytes))
  | close (name : Bytes)
  deriving DecidableEq, Repr

namespace Tag

/-- A start tag of that name. -/
def starts (name : Bytes) : Tag → Bool
  | start n _ => n = name
  | _ => false

/-- The value of an attribute, in a start tag of that name. -/
def value (name key : Bytes) : Tag → Option Bytes
  | start n attributes => if n = name then attributes.lookup key else none
  | _ => none

end Tag

/-! ## Names and attributes -/

/-- Underscores, colons and what is not ASCII count as letters. -/
def isNameStart (c : BitVec 8) : Bool := isLetter c || c = 0x5F#8 || c = 0x3A#8 || 0x80 ≤ c.toNat

def isNameByte (c : BitVec 8) : Bool := isNameStart c || isDigit c || c = 0x2D#8 || c = 0x2E#8

def isName : Bytes → Bool
  | [] => false
  | c :: t => isNameStart c && t.all isNameByte

/-- A name and what comes behind it. -/
def readName (t : Bytes) : Option (Bytes × Bytes) :=
  if isName (t.takeWhile isNameByte) then some (t.takeWhile isNameByte, t.dropWhile isNameByte)
  else none

/-- The text up to the quote, decoded, and what comes behind the quote. -/
def readUpTo (quote : BitVec 8) (t : Bytes) : Option (Bytes × Bytes) :=
  match t.dropWhile (· != quote) with
  | [] => none
  | _ :: rest => (decode (t.takeWhile (· != quote))).map fun value => (value, rest)

def readQuoted : Bytes → Option (Bytes × Bytes)
  | [] => none
  | c :: t => if c = doubleQuote ∨ c = singleQuote then readUpTo c t else none

/-- The equals sign behind the name of an attribute, and its value. -/
def readValue (t : Bytes) : Option (Bytes × Bytes) :=
  match t.dropWhile isSpace with
  | [] => none
  | c :: rest => if c = equals then readQuoted (rest.dropWhile isSpace) else none

def readAttribute (t : Bytes) : Option ((Bytes × Bytes) × Bytes) :=
  (readName t).bind fun key => (readValue key.2).map fun value => ((key.1, value.1), value.2)

def startsName : Bytes → Bool
  | [] => false
  | c :: _ => isNameStart c

/-- Attributes, with a blank before each, and what comes behind them and further blanks. -/
def readAttributes : ℕ → Bytes → Option (List (Bytes × Bytes) × Bytes)
  | 0, _ => none
  | fuel + 1, t =>
    if startsName (t.dropWhile isSpace) then
      if startsName t then none
      else
        (readAttribute (t.dropWhile isSpace)).bind fun a =>
          (readAttributes fuel a.2).map fun as => (a.1 :: as.1, as.2)
    else some ([], t.dropWhile isSpace)

/-! ## Tags -/

/-- The end of a start tag. -/
def readEnd (name : Bytes) (attributes : List (Bytes × Bytes)) : Bytes → Option (Tag × Bytes)
  | [] => none
  | c :: t =>
    if c = greaterThan then some (.start name attributes, t)
    else if [slash, greaterThan].isPrefixOf (c :: t) then some (.empty name attributes, t.drop 1)
    else none

/-- The end of an end tag. -/
def readClose (name : Bytes) : Bytes → Option (Tag × Bytes)
  | [] => none
  | c :: t => if c = greaterThan then some (.close name, t) else none

/-- A start tag; no two of its attributes may have one name. -/
def readStart (t : Bytes) : Option (Tag × Bytes) :=
  (readName t).bind fun name => (readAttributes (t.length + 1) name.2).bind fun as =>
    if (as.1.map Prod.fst).Nodup then readEnd name.1 as.1 as.2 else none

/-- The text behind `<`. -/
def readTag : Bytes → Option (Tag × Bytes)
  | [] => none
  | c :: t =>
    if c = slash then (readName t).bind fun name => readClose name.1 (name.2.dropWhile isSpace)
    else readStart (c :: t)

/-! ## Documents -/

/-- The text in front of the first `<`, and what comes behind each up to the next one. -/
def split : Bytes → Bytes × List Bytes
  | [] => ([], [])
  | c :: t =>
    match split t with
    | (first, pieces) => if c = lessThan then ([], first :: pieces) else (c :: first, pieces)

/-- A tag and the character data behind it. -/
def readPiece (t : Bytes) : Option (Tag × Bytes) :=
  (readTag t).bind fun tag => (decodeText tag.2).map fun text => (tag.1, text)

def readPieces : List Bytes → Option (List (Tag × Bytes))
  | [] => some []
  | piece :: pieces =>
    (readPiece piece).bind fun tag => (readPieces pieces).map fun tags => tag :: tags

structure Document where
  leading : Bytes
  tags : List (Tag × Bytes)
  deriving DecidableEq, Repr

def read (t : Bytes) : Option Document :=
  (decodeText (split t).1).bind fun leading =>
    (readPieces (split t).2).map fun tags => { leading, tags }

/-- The tags of the content of an element: every start tag has its end tag. -/
inductive Content : List Tag → Prop
  | nil : Content []
  | empty {name : Bytes} {attributes : List (Bytes × Bytes)} {rest : List Tag}
    (hrest : Content rest) : Content (.empty name attributes :: rest)
  | element {name : Bytes} {attributes : List (Bytes × Bytes)} {inside rest : List Tag}
    (hinside : Content inside) (hrest : Content rest) :
    Content (.start name attributes :: (inside ++ .close name :: rest))

namespace Document

def tagList (doc : Document) : List Tag := doc.tags.map Prod.fst

/-- The document is one element. -/
structure WellFormed (doc : Document) : Prop where
  leading : doc.leading.all isSpace
  root : ∃ name attributes inside, Content inside ∧
    doc.tagList = .start name attributes :: (inside ++ [.close name])
  trailing : ∀ t ∈ doc.tags.getLast?, t.2.all isSpace

/-- The values of an attribute, over the start tags of that name. -/
def values (name key : Bytes) (doc : Document) : List Bytes :=
  doc.tagList.filterMap (Tag.value name key)

/-- The character data behind the start tags of that name. -/
def texts (name : Bytes) (doc : Document) : List Bytes :=
  doc.tags.filterMap fun t => if t.1.starts name then some t.2 else none

end Document

theorem Content.append {tags tags' : List Tag} (h : Content tags) (h' : Content tags') :
    Content (tags ++ tags') := by
  induction h with
  | nil => exact h'
  | empty _ ih => exact .empty ih
  | element hinside _ _ ih =>
    rw [List.cons_append, List.append_assoc, List.cons_append]
    exact .element hinside ih

/-! ## Writing tags -/

/-- An attribute that is written in double quotes. -/
structure Attribute where
  key : Bytes
  raw : Bytes
  value : Bytes
  isName_key : isName key = true
  quote_not_mem : doubleQuote ∉ raw
  decode_raw : decode raw = some value

namespace Attribute

def write (a : Attribute) : Bytes :=
  blank :: (a.key ++ equals :: doubleQuote :: (a.raw ++ [doubleQuote]))

def entry (a : Attribute) : Bytes × Bytes := (a.key, a.value)

/-- An attribute with a plain value. -/
def plain (key value : Bytes) (hkey : isName key = true)
    (hvalue : value.all isPlain = true) : Attribute where
  key := key
  raw := value
  value := value
  isName_key := hkey
  quote_not_mem := not_mem_of_plain hvalue (by decide)
  decode_raw := decode_of_plain hvalue

end Attribute

section WriteTag

variable {c : BitVec 8} {name t rest : Bytes} {fuel : ℕ}

theorem isSpace_of_isNameStart (h : isNameStart c = true) : isSpace c = false := by
  have hall : ∀ c : BitVec 8, isNameStart c = true → isSpace c = false := by decide
  exact hall c h

theorem isNameByte_of_isNameStart (h : isNameStart c = true) : isNameByte c = true := by
  simp [isNameByte, h]

/-- A name starts where it is read. -/
theorem exists_cons_of_isName (h : isName name = true) :
    ∃ c t, name = c :: t ∧ isNameStart c = true ∧ ∀ e ∈ name, isNameByte e = true := by
  cases name with
  | nil => cases h
  | cons c t =>
    rw [isName, Bool.and_eq_true, List.all_eq_true] at h
    exact ⟨c, t, rfl, h.1, List.forall_mem_cons.mpr ⟨isNameByte_of_isNameStart h.1, h.2⟩⟩

theorem readName_append (hname : isName name = true) (hc : isNameByte c = false) :
    readName (name ++ c :: rest) = some (name, c :: rest) := by
  obtain ⟨_, _, _, _, hall⟩ := exists_cons_of_isName hname
  rw [readName, List.takeWhile_append_of_pos hall, List.dropWhile_append_of_pos hall,
    List.takeWhile_cons_of_neg (by simp [hc]), List.dropWhile_cons_of_neg (by simp [hc]),
    List.append_nil, if_pos hname]

theorem dropWhile_isSpace_name (hname : isName name = true) :
    (name ++ rest).dropWhile isSpace = name ++ rest := by
  obtain ⟨c, t, rfl, hstart, _⟩ := exists_cons_of_isName hname
  exact List.dropWhile_cons_of_neg (by simp [isSpace_of_isNameStart hstart])

theorem startsName_append (hname : isName name = true) : startsName (name ++ rest) = true := by
  obtain ⟨c, t, rfl, hstart, _⟩ := exists_cons_of_isName hname
  exact hstart

theorem readUpTo_append {raw value : Bytes} (hquote : doubleQuote ∉ raw)
    (hdecode : decode raw = some value) :
    readUpTo doubleQuote (raw ++ doubleQuote :: rest) = some (value, rest) := by
  have hraw : ∀ c ∈ raw, (c != doubleQuote) = true := fun c hc =>
    bne_iff_ne.mpr fun h => hquote (h ▸ hc)
  rw [readUpTo, List.takeWhile_append_of_pos hraw, List.dropWhile_append_of_pos hraw,
    List.takeWhile_cons_of_neg (by simp), List.dropWhile_cons_of_neg (by simp), List.append_nil,
    hdecode]
  rfl

theorem readAttribute_write (a : Attribute) :
    readAttribute (a.key ++ equals :: doubleQuote :: (a.raw ++ doubleQuote :: rest)) =
      some (a.entry, rest) := by
  rw [readAttribute, readName_append a.isName_key (by decide), Option.bind_some, readValue,
    List.dropWhile_cons_of_neg (by decide)]
  dsimp only
  rw [if_pos rfl, List.dropWhile_cons_of_neg (by decide), readQuoted, if_pos (Or.inl rfl),
    readUpTo_append a.quote_not_mem a.decode_raw]
  rfl

/-- What ends a tag is neither a blank nor a name. -/
theorem readAttributes_write (as : List Attribute) (hfuel : as.length < fuel)
    (hspace : isSpace c = false) (hstart : isNameStart c = false) :
    readAttributes fuel (as.flatMap Attribute.write ++ c :: rest) =
      some (as.map Attribute.entry, c :: rest) := by
  induction as generalizing fuel with
  | nil =>
    obtain ⟨fuel, rfl⟩ := Nat.exists_eq_succ_of_ne_zero (Nat.ne_zero_of_lt hfuel)
    rw [List.flatMap_nil, List.nil_append, readAttributes,
      List.dropWhile_cons_of_neg (by simp [hspace]), if_neg (by simp [startsName, hstart])]
    rfl
  | cons a as ih =>
    obtain ⟨fuel, rfl⟩ := Nat.exists_eq_succ_of_ne_zero (Nat.ne_zero_of_lt hfuel)
    have hwrite : (a :: as).flatMap Attribute.write ++ c :: rest =
        blank :: (a.key ++ equals :: doubleQuote ::
          (a.raw ++ doubleQuote :: (as.flatMap Attribute.write ++ c :: rest))) := by
      simp [Attribute.write]
    rw [hwrite, readAttributes, List.dropWhile_cons_of_pos (by decide),
      dropWhile_isSpace_name a.isName_key, if_pos (startsName_append a.isName_key),
      if_neg (by simp only [startsName]; decide), readAttribute_write, Option.bind_some,
      ih (Nat.lt_of_succ_lt_succ hfuel)]
    rfl

theorem length_le_flatMap_write (as : List Attribute) :
    as.length ≤ (as.flatMap Attribute.write).length := by
  induction as with
  | nil => exact Nat.le_refl _
  | cons a as ih =>
    simp only [List.flatMap_cons, List.length_append, List.length_cons, Attribute.write]
    omega

theorem readStart_write (hname : isName name = true) (as : List Attribute)
    (hkeys : (as.map Attribute.key).Nodup) (hspace : isSpace c = false)
    (hbyte : isNameByte c = false) :
    readStart (name ++ (as.flatMap Attribute.write ++ c :: rest)) =
      readEnd name (as.map Attribute.entry) (c :: rest) := by
  have hstart : isNameStart c = false := by
    by_contra h
    rw [isNameByte_of_isNameStart (by simpa using h)] at hbyte
    cases hbyte
  have hread : readName (name ++ (as.flatMap Attribute.write ++ c :: rest)) =
      some (name, as.flatMap Attribute.write ++ c :: rest) := by
    cases as with
    | nil => exact readName_append hname hbyte
    | cons a as => exact readName_append hname (by decide)
  have hentries : (as.map Attribute.entry).map Prod.fst = as.map Attribute.key := by
    rw [List.map_map]
    rfl
  rw [readStart, hread, Option.bind_some, readAttributes_write as ?_ hspace hstart,
    Option.bind_some, hentries, if_pos hkeys]
  have hlength := length_le_flatMap_write as
  simp only [List.length_append, List.length_cons]
  omega

theorem readTag_name (hname : isName name = true) : readTag (name ++ rest) = readStart (name ++ rest) := by
  obtain ⟨c, t, rfl, hstart, _⟩ := exists_cons_of_isName hname
  rw [List.cons_append, readTag, if_neg]
  rintro rfl
  cases hstart

end WriteTag

/-- A tag as it is written, without the `<`. -/
structure Markup where
  source : Bytes
  tag : Tag
  lessThan_not_mem : lessThan ∉ source
  readTag_source : ∀ rest, readTag (source ++ rest) = some (tag, rest)

namespace Markup

theorem lessThan_not_mem_name {name : Bytes} (hname : isName name = true) : lessThan ∉ name := by
  obtain ⟨_, _, _, _, hall⟩ := exists_cons_of_isName hname
  intro hmem
  cases hall _ hmem

theorem lessThan_not_mem_write (as : List Attribute) :
    lessThan ∉ as.flatMap Attribute.write := by
  intro hmem
  obtain ⟨a, _, ha⟩ := List.mem_flatMap.mp hmem
  simp only [Attribute.write, List.mem_cons, List.mem_append, List.not_mem_nil, or_false] at ha
  rcases ha with h | h | h | h | h | h
  · cases h
  · exact lessThan_not_mem_name a.isName_key h
  · cases h
  · cases h
  · exact lessThan_not_mem_of_decode a.decode_raw h
  · cases h

def start (name : Bytes) (as : List Attribute) (hname : isName name = true)
    (hkeys : (as.map Attribute.key).Nodup) : Markup where
  source := name ++ (as.flatMap Attribute.write ++ [greaterThan])
  tag := .start name (as.map Attribute.entry)
  lessThan_not_mem := by
    simp only [List.mem_append, not_or]
    exact ⟨lessThan_not_mem_name hname, lessThan_not_mem_write as, by decide⟩
  readTag_source rest := by
    rw [List.append_assoc, List.append_assoc, readTag_name hname]
    exact readStart_write hname as hkeys (by decide) (by decide)

def empty (name : Bytes) (as : List Attribute) (hname : isName name = true)
    (hkeys : (as.map Attribute.key).Nodup) : Markup where
  source := name ++ (as.flatMap Attribute.write ++ [slash, greaterThan])
  tag := .empty name (as.map Attribute.entry)
  lessThan_not_mem := by
    simp only [List.mem_append, not_or]
    exact ⟨lessThan_not_mem_name hname, lessThan_not_mem_write as, by decide⟩
  readTag_source rest := by
    rw [List.append_assoc, List.append_assoc, readTag_name hname]
    exact readStart_write hname as hkeys (by decide) (by decide)

def close (name : Bytes) (hname : isName name = true) : Markup where
  source := slash :: (name ++ [greaterThan])
  tag := .close name
  lessThan_not_mem := by
    simp only [List.mem_cons, List.mem_append, not_or]
    exact ⟨by decide, lessThan_not_mem_name hname, by decide, List.not_mem_nil⟩
  readTag_source rest := by
    rw [List.cons_append, List.append_assoc, readTag, if_pos rfl]
    exact congrArg (Option.bind · _) (readName_append hname (by decide))

end Markup

/-! ## Texts written as tags and fields -/

def writePiece (s : Markup × Bytes) : Bytes := lessThan :: (s.1.source ++ s.2)

def render (segments : List (Markup × Bytes)) : Bytes := segments.flatMap writePiece

section Render

variable {segments : List (Markup × Bytes)} {t : Bytes} {doc : Document}

theorem split_append {a : Bytes} (ha : lessThan ∉ a) (t : Bytes) :
    split (a ++ t) = (a ++ (split t).1, (split t).2) := by
  induction a with
  | nil => rfl
  | cons c a ih =>
    rw [List.mem_cons, not_or] at ha
    rw [List.cons_append, split, ih ha.2]
    exact if_neg (Ne.symm ha.1)

theorem length_split (t : Bytes) : (split t).2.length = t.count lessThan := by
  induction t with
  | nil => rfl
  | cons c t ih =>
    rw [split, List.count_cons, ← ih]
    by_cases hc : c = lessThan
    · simp [hc]
    · simp [hc]

theorem split_render (h : ∀ s ∈ segments, lessThan ∉ s.2) :
    split (render segments) = ([], segments.map fun s => s.1.source ++ s.2) := by
  induction segments with
  | nil => rfl
  | cons s segments ih =>
    rw [List.forall_mem_cons] at h
    have hpiece : lessThan ∉ s.1.source ++ s.2 :=
      List.not_mem_append s.1.lessThan_not_mem h.1
    have hrender : render (s :: segments) =
        lessThan :: ((s.1.source ++ s.2) ++ render segments) := rfl
    rw [hrender, split, split_append hpiece, ih h.2, List.append_nil]
    rfl

/-- Every `<` beyond those of the tags is one of a field. -/
theorem count_render (segments : List (Markup × Bytes)) :
    (render segments).count lessThan =
      segments.length + (segments.map fun s => s.2.count lessThan).sum := by
  induction segments with
  | nil => rfl
  | cons s segments ih =>
    have hrender : render (s :: segments) =
        lessThan :: (s.1.source ++ (s.2 ++ render segments)) := by
      simp [render, writePiece]
    have hsource : s.1.source.count lessThan = 0 := List.count_eq_zero.mpr s.1.lessThan_not_mem
    rw [hrender, List.count_cons_self, List.count_append, List.count_append, hsource, ih,
      List.map_cons, List.sum_cons, List.length_cons]
    omega

theorem readPieces_eq_some_iff {pieces : List Bytes} {tags : List (Tag × Bytes)} :
    readPieces pieces = some tags ↔
      List.Forall₂ (fun piece tag => readPiece piece = some tag) pieces tags := by
  induction pieces generalizing tags with
  | nil => simp [readPieces, eq_comm]
  | cons piece pieces ih =>
    rw [readPieces, List.forall₂_cons_left_iff]
    simp only [Option.bind_eq_some_iff, Option.map_eq_some_iff, ih]
    constructor
    · rintro ⟨tag, htag, tags, htags, rfl⟩
      exact ⟨tag, tags, htag, htags, rfl⟩
    · rintro ⟨tag, tags, htag, htags, rfl⟩
      exact ⟨tag, htag, tags, htags, rfl⟩

theorem readPiece_write (s : Markup × Bytes) {tag : Tag × Bytes} :
    readPiece (s.1.source ++ s.2) = some tag ↔ tag.1 = s.1.tag ∧ decodeText s.2 = some tag.2 := by
  rw [readPiece, s.1.readTag_source, Option.bind_some, Option.map_eq_some_iff]
  constructor
  · rintro ⟨text, htext, rfl⟩
    exact ⟨rfl, htext⟩
  · rintro ⟨htag, htext⟩
    exact ⟨tag.2, htext, Prod.ext htag.symm rfl⟩

theorem read_eq_some_iff :
    read t = some doc ↔ decodeText (split t).1 = some doc.leading ∧
      List.Forall₂ (fun piece tag => readPiece piece = some tag) (split t).2 doc.tags := by
  rw [← readPieces_eq_some_iff, read]
  simp only [Option.bind_eq_some_iff, Option.map_eq_some_iff]
  constructor
  · rintro ⟨leading, hleading, tags, htags, rfl⟩
    exact ⟨hleading, htags⟩
  · rintro ⟨hleading, htags⟩
    exact ⟨doc.leading, hleading, doc.tags, htags, rfl⟩

/-- What is written is read with the tags meant exactly when its fields are character data. -/
theorem read_render_iff :
    (read (render segments) = some doc ∧ doc.tagList = segments.map fun s => s.1.tag) ↔
      doc.leading = [] ∧ List.Forall₂ (fun s tag => tag.1 = s.1.tag ∧ decodeText s.2 = some tag.2)
        segments doc.tags := by
  have hfields (h : ∀ s ∈ segments, lessThan ∉ s.2) :
      read (render segments) = some doc ↔ doc.leading = [] ∧
        List.Forall₂ (fun s tag => tag.1 = s.1.tag ∧ decodeText s.2 = some tag.2)
          segments doc.tags := by
    rw [read_eq_some_iff, split_render h, List.forall₂_map_left_iff]
    simp only [readPiece_write]
    refine and_congr_left' ?_
    rw [show decodeText [] = some [] from rfl, Option.some_inj, eq_comm]
  constructor
  · rintro ⟨hread, htags⟩
    refine (hfields ?_).mp hread
    have hlength := (read_eq_some_iff.mp hread).2.length_eq
    have hmeant := congrArg List.length htags
    rw [Document.tagList, List.length_map, List.length_map] at hmeant
    rw [length_split, count_render] at hlength
    intro s hs
    have hsum : (segments.map fun s => s.2.count lessThan).sum = 0 := by omega
    exact List.count_eq_zero.mp
      (List.sum_eq_zero_iff_forall_eq_nat.mp hsum _ (List.mem_map.mpr ⟨s, hs, rfl⟩))
  · rintro ⟨hleading, htags⟩
    have hplain : (∀ s ∈ segments, lessThan ∉ s.2) ∧
        List.Forall₂ (fun s tag => tag.1 = s.1.tag) segments doc.tags :=
      (List.forall₂_and_left segments doc.tags).mp
        (htags.imp fun s tag h => ⟨lessThan_not_mem_of_decode (decodeText_eq_some_iff.mp h.2).2, h.1⟩)
    have hnames : List.Forall₂ (· = ·) (segments.map fun s => s.1.tag) doc.tagList := by
      rw [Document.tagList, List.forall₂_map_left_iff, List.forall₂_map_right_iff]
      exact hplain.2.imp fun _ _ h => h.symm
    rw [List.forall₂_eq_eq_eq] at hnames
    exact ⟨(hfields hplain.1).mpr ⟨hleading, htags⟩, hnames.symm⟩

/-- The fields behind the start tags of that name. -/
def fields (name : Bytes) (segments : List (Markup × Bytes)) : List Bytes :=
  segments.filterMap fun s => if s.1.tag.starts name then some s.2 else none

theorem fields_append (name : Bytes) (s t : List (Markup × Bytes)) :
    fields name (s ++ t) = fields name s ++ fields name t :=
  List.filterMap_append

theorem texts_fields
    (h : List.Forall₂ (fun s tag => tag.1 = s.1.tag ∧ decodeText s.2 = some tag.2)
      segments doc.tags) (name : Bytes) :
    List.Forall₂ (fun field text => decodeText field = some text) (fields name segments)
      (doc.texts name) := by
  refine List.rel_filterMap (fun s tag hs => ?_) h
  rw [hs.1]
  split
  · exact .some hs.2
  · exact .none

theorem getLast?_tags
    (h : List.Forall₂ (fun s tag => tag.1 = s.1.tag ∧ decodeText s.2 = some tag.2)
      segments doc.tags) {tag : Tag × Bytes} (htag : tag ∈ doc.tags.getLast?) :
    ∃ s ∈ segments.getLast?, decodeText s.2 = some tag.2 := by
  generalize doc.tags = tags at h htag
  induction h with
  | nil => cases htag
  | @cons s first segments tags hfirst hrest ih =>
    cases hrest with
    | nil =>
      obtain rfl := Option.mem_some_iff.mp htag
      exact ⟨s, rfl, hfirst.2⟩
    | cons _ _ =>
      rw [List.getLast?_cons_cons] at htag ⊢
      exact ih htag

/-- Tags with fields that are all character data are read. -/
theorem exists_document (h : ∀ s ∈ segments, (decodeText s.2).isSome) :
    ∃ doc : Document, doc.leading = [] ∧
      List.Forall₂ (fun s tag => tag.1 = s.1.tag ∧ decodeText s.2 = some tag.2)
        segments doc.tags := by
  suffices ∃ tags : List (Tag × Bytes),
      List.Forall₂ (fun s tag => tag.1 = s.1.tag ∧ decodeText s.2 = some tag.2) segments tags by
    obtain ⟨tags, htags⟩ := this
    exact ⟨{ leading := [], tags }, rfl, htags⟩
  induction segments with
  | nil => exact ⟨[], .nil⟩
  | cons s segments ih =>
    rw [List.forall_mem_cons] at h
    obtain ⟨text, htext⟩ := Option.isSome_iff_exists.mp h.1
    obtain ⟨tags, htags⟩ := ih h.2
    exact ⟨(s.1.tag, text) :: tags, .cons ⟨rfl, htext⟩ htags⟩

end Render

end Xml
