import MemSentry.Library.XmlDocument
import MemSentry.Profiler.FlamegraphSvg
import Mathlib.Data.Rat.Defs

/-!
# The flamegraph as a document

`generate_svg` puts each name into the `data-name` of a group, into its title and into its
label. Attribute and label go through `escape_xml`; the title does not, and neither does the
file name in it. The picture is a document with the generator's own tags, and gives the
names back, exactly when every title drawn can go without (`flamegraph_well_formed_iff`).
-/

namespace MemSentry.Profiler

open Xml (Attribute Markup)

/-! ## Fields -/

section Fields

variable {t : Text}

theorem isPlain_of_isNumberByte {c : Byte} (h : isNumberByte c = true) : Xml.isPlain c = true := by
  have hall : ∀ c : Byte, isNumberByte c = true → Xml.isPlain c = true := by decide
  exact hall c h

theorem plain_of_number (h : t.all isNumberByte = true) : t.all Xml.isPlain = true :=
  List.all_eq_true.mpr fun c hc => isPlain_of_isNumberByte (List.all_eq_true.mp h c hc)

theorem number_write (n : ℕ) : (Numeral.write 10 n).all isNumberByte = true := by
  have hdigit : ∀ d : Fin 10, isNumberByte (Numeral.ofChar (Nat.digitChar d)) = true := by decide
  refine List.all_eq_true.mpr fun c hc => ?_
  obtain ⟨d, hd, rfl⟩ := Numeral.mem_write (by decide) hc
  exact hdigit ⟨d, hd⟩

theorem plain_write (n : ℕ) : (Numeral.write 10 n).all Xml.isPlain = true :=
  plain_of_number (number_write n)

theorem decode_escapeByte (c : Byte) : Xml.decode (escapeByte c) = some [c] := by
  unfold escapeByte
  split
  next h => rw [h]; rfl
  split
  next h => rw [h]; rfl
  split
  next h => rw [h]; rfl
  split
  next h => rw [h]; rfl
  split
  next h => rw [h]; rfl
  next hamp hless _ _ _ =>
    rw [Xml.decode_cons hless hamp]
    rfl

theorem decode_escapeXml (t : Text) : Xml.decode (escapeXml t) = some t := by
  induction t with
  | nil => rfl
  | cons c t ih =>
    have happend := Xml.decode_append (decode_escapeByte c) (escapeXml t)
    rw [ih] at happend
    exact happend

/-- Neither quotes nor the end of a marked section come through. -/
theorem not_mem_escapeXml (t : Text) :
    Xml.doubleQuote ∉ escapeXml t ∧ Xml.greaterThan ∉ escapeXml t := by
  have hall : ∀ c : Byte, Xml.doubleQuote ∉ escapeByte c ∧ Xml.greaterThan ∉ escapeByte c := by
    decide
  constructor
  · intro hmem
    obtain ⟨c, _, hc⟩ := List.mem_flatMap.mp hmem
    exact (hall c).1 hc
  · intro hmem
    obtain ⟨c, _, hc⟩ := List.mem_flatMap.mp hmem
    exact (hall c).2 hc

theorem decodeText_escapeXml (t : Text) : Xml.decodeText (escapeXml t) = some t := by
  refine Xml.decodeText_eq_some_iff.mpr ⟨fun hwithin => ?_, decode_escapeXml t⟩
  exact (not_mem_escapeXml t).2 (List.IsInfix.subset hwithin (by decide))

end Fields

/-! ## The generator's tags -/

section Tags

def numberAttribute (key : Text) (hkey : Xml.isName key = true) (number : Text)
    (hnumber : number.all isNumberByte = true) : Attribute :=
  .plain key number hkey (plain_of_number hnumber)

def nameAttribute (name : Text) : Attribute where
  key := ascii "data-name"
  raw := escapeXml name
  value := name
  isName_key := by decide
  quote_not_mem := (not_mem_escapeXml name).1
  decode_raw := decode_escapeXml name

def groupTag (name : Text) : Markup :=
  .start (ascii "g") [.plain (ascii "class") (ascii "node") (by decide) (by decide),
    nameAttribute name] (by decide) (by
      show [ascii "class", ascii "data-name"].Nodup
      decide)

def bareTag (name : Text) (hname : Xml.isName name = true) : Markup :=
  .start name [] hname List.nodup_nil

variable {F : Type} (doubles : Doubles F) (maxDepth : ℕ) (rowHeight : F)

def fillValue (b : Box F) : Text :=
  ascii "hsl(" ++ Numeral.write 10 (hue b.node.name) ++ ascii ", " ++
    Numeral.write 10 (sat b.depth) ++ ascii "%, " ++ Numeral.write 10 (light b.depth) ++
    ascii "%)"

theorem plain_fillValue (b : Box F) : (fillValue b).all Xml.isPlain = true := by
  have hopen : (ascii "hsl(").all Xml.isPlain = true := by decide
  have hcomma : (ascii ", ").all Xml.isPlain = true := by decide
  have hpercent : (ascii "%, ").all Xml.isPlain = true := by decide
  have hclose : (ascii "%)").all Xml.isPlain = true := by decide
  simp only [fillValue, List.all_append, hopen, hcomma, hpercent, hclose, plain_write,
    Bool.and_true]

def rectTag (b : Box F) : Markup :=
  .empty (ascii "rect")
    [numberAttribute (ascii "x") (by decide) _ (doubles.all_general b.x),
      numberAttribute (ascii "y") (by decide) _
        (doubles.all_general (boxTop doubles maxDepth rowHeight b.depth)),
      numberAttribute (ascii "width") (by decide) _ (doubles.all_general b.w),
      numberAttribute (ascii "height") (by decide) _ (doubles.all_general rowHeight),
      .plain (ascii "fill") (fillValue b) (by decide) (plain_fillValue b)] (by decide) (by
        show [ascii "x", ascii "y", ascii "width", ascii "height", ascii "fill"].Nodup
        decide)

def labelTag (b : Box F) : Markup :=
  .start (ascii "text")
    [numberAttribute (ascii "x") (by decide) _
        (doubles.all_general (doubles.add b.x (doubles.ofInt 4))),
      numberAttribute (ascii "y") (by decide) _ (doubles.all_general (doubles.sub (doubles.add
        (boxTop doubles maxDepth rowHeight b.depth) rowHeight) (doubles.ofInt 6)))]
    (by decide) (by
      show [ascii "x", ascii "y"].Nodup
      decide)

def viewBox (width : F) : Text :=
  ascii "0 0 " ++ doubles.general width ++ ascii " " ++
    doubles.general (svgHeight doubles maxDepth rowHeight)

theorem plain_viewBox (width : F) :
    (viewBox doubles maxDepth rowHeight width).all Xml.isPlain = true := by
  have horigin : (ascii "0 0 ").all Xml.isPlain = true := by decide
  have hblank : (ascii " ").all Xml.isPlain = true := by decide
  simp only [viewBox, List.all_append, horigin, hblank, plain_of_number (doubles.all_general _),
    Bool.and_true]

def svgTag (width : F) : Markup :=
  .start (ascii "svg")
    [.plain (ascii "class") (ascii "flamegraph-svg") (by decide) (by decide),
      .plain (ascii "viewBox") (viewBox doubles maxDepth rowHeight width) (by decide)
        (plain_viewBox doubles maxDepth rowHeight width),
      .plain (ascii "width") (ascii "100%") (by decide) (by decide),
      .plain (ascii "xmlns") (ascii "http://www.w3.org/2000/svg") (by decide) (by decide)]
    (by decide) (by
      show [ascii "class", ascii "viewBox", ascii "width", ascii "xmlns"].Nodup
      decide)

def messageSvgTag : Markup :=
  .start (ascii "svg")
    [.plain (ascii "width") (ascii "100%") (by decide) (by decide),
      .plain (ascii "height") (ascii "60") (by decide) (by decide)]
    (by decide) (by
      show [ascii "width", ascii "height"].Nodup
      decide)

def messageTag : Markup :=
  .start (ascii "text")
    [.plain (ascii "x") (ascii "20") (by decide) (by decide),
      .plain (ascii "y") (ascii "35") (by decide) (by decide),
      .plain (ascii "fill") (ascii "#8b949e") (by decide) (by decide)]
    (by decide) (by
      show [ascii "x", ascii "y", ascii "fill"].Nodup
      decide)

end Tags

/-! ## The picture as tags and fields -/

section Segments

variable {F : Type} (doubles : Doubles F) (maxDepth : ℕ) (rowHeight : F) (totalRootBytes : Word)

def labelSegments (b : Box F) : List (Markup × Text) :=
  if doubles.lt (doubles.ofInt 35) b.w then
    [(labelTag doubles maxDepth rowHeight b, escapeXml (labelOf doubles b.w b.node.name)),
      (.close (ascii "text") (by decide), ascii "\n")]
  else []

def groupSegments (b : Box F) : List (Markup × Text) :=
  [(groupTag b.node.name, ascii "\n  "),
    (bareTag (ascii "title") (by decide), tooltip doubles totalRootBytes b.node),
    (.close (ascii "title") (by decide), ascii "\n  "),
    (rectTag doubles maxDepth rowHeight b,
      if doubles.lt (doubles.ofInt 35) b.w then ascii "\n  " else ascii "\n")] ++
  labelSegments doubles maxDepth rowHeight b ++ [(.close (ascii "g") (by decide), ascii "\n")]

def messageSegments : List (Markup × Text) :=
  [(messageSvgTag, []),
    (messageTag, ascii "No memory allocations to display in flamegraph"),
    (.close (ascii "text") (by decide), []), (.close (ascii "svg") (by decide), [])]

def headSegments (width : F) : List (Markup × Text) :=
  [(svgTag doubles maxDepth rowHeight width, ascii "\n"),
    (bareTag (ascii "style") (by decide), styleText),
    (.close (ascii "style") (by decide), ascii "\n")]

def pictureSegments (root : FlameNode) (width : F) : List (Markup × Text) :=
  let maxDepth := getMaxDepth 0 root
  headSegments doubles maxDepth rowHeight width ++
  (boxes doubles (doubles.ofInt 0) width 0 root).flatMap
    (groupSegments doubles maxDepth rowHeight root.totalBytes) ++
  [(.close (ascii "svg") (by decide), ascii "\n")]

def svgSegments (root : Option FlameNode) (width : F) : List (Markup × Text) :=
  match root with
  | none => messageSegments
  | some root =>
    if root.totalBytes = 0 then messageSegments else pictureSegments doubles rowHeight root width

def rootBytes (root : Option FlameNode) : Word := root.elim 0 FlameNode.totalBytes

/-- The tags that the generator means to write. -/
def ownTags (root : Option FlameNode) (width : F) : List Xml.Tag :=
  (svgSegments doubles rowHeight root width).map fun s => s.1.tag

theorem groupSvg_eq (b : Box F) :
    groupSvg doubles maxDepth rowHeight totalRootBytes b =
      Xml.render (groupSegments doubles maxDepth rowHeight totalRootBytes b) := by
  unfold groupSvg groupSegments labelSvg labelSegments
  dsimp only
  split
  all_goals
    simp only [Xml.render, Xml.writePiece, List.flatMap_cons, List.flatMap_nil, groupTag, bareTag,
      rectTag, labelTag, Markup.start, Markup.empty, Markup.close, numberAttribute, nameAttribute,
      Attribute.plain, Attribute.write, fillValue, List.append_assoc, List.cons_append,
      List.nil_append, List.append_nil]
    rfl

theorem generateSvg_eq (root : Option FlameNode) (width : F) :
    generateSvg doubles root width rowHeight =
      Xml.render (svgSegments doubles rowHeight root width) := by
  cases root with
  | none => rfl
  | some root =>
    unfold generateSvg svgSegments
    dsimp only
    split
    · rfl
    · have hgroups (bs : List (Box F)) :
          bs.flatMap (groupSvg doubles (getMaxDepth 0 root) rowHeight root.totalBytes) =
            Xml.render (bs.flatMap
              (groupSegments doubles (getMaxDepth 0 root) rowHeight root.totalBytes)) := by
        rw [Xml.render, List.flatMap_assoc]
        exact List.flatMap_congr fun b _ => groupSvg_eq doubles _ rowHeight _ b
      rw [renderNodeSvg_eq, hgroups, pictureSegments, headSegments]
      simp only [Xml.render, Xml.writePiece, List.flatMap_append, List.flatMap_cons,
        List.flatMap_nil, svgTag, bareTag, Markup.start, Markup.close, Attribute.plain,
        Attribute.write, viewBox, List.append_assoc, List.cons_append, List.nil_append,
        List.append_nil]
      rfl

/-! ## What is read -/

/-- Either the message is shown and nothing drawn, or the groups of what is drawn. -/
theorem svgSegments_cases (root : Option FlameNode) (width : F) :
    (svgSegments doubles rowHeight root width = messageSegments ∧
      drawn doubles root width = []) ∨
    ∃ maxDepth, svgSegments doubles rowHeight root width =
      headSegments doubles maxDepth rowHeight width ++
      (drawn doubles root width).flatMap
        (groupSegments doubles maxDepth rowHeight (rootBytes root)) ++
      [(.close (ascii "svg") (by decide), ascii "\n")] := by
  unfold svgSegments drawn
  cases root with
  | none => exact Or.inl ⟨rfl, rfl⟩
  | some root =>
    dsimp only
    split
    · exact Or.inl ⟨rfl, rfl⟩
    · exact Or.inr ⟨_, rfl⟩

theorem content_groups (bs : List (Box F)) :
    Xml.Content ((bs.flatMap (groupSegments doubles maxDepth rowHeight totalRootBytes)).map
      fun s => s.1.tag) := by
  induction bs with
  | nil => exact .nil
  | cons b bs ih =>
    rw [List.flatMap_cons, List.map_append]
    refine Xml.Content.append ?_ ih
    unfold groupSegments labelSegments
    split
    · exact .element (.element .nil (.empty (.element .nil .nil))) .nil
    · exact .element (.element .nil (.empty .nil)) .nil

theorem root_ownTags (root : Option FlameNode) (width : F) :
    ∃ name attributes inside, Xml.Content inside ∧
      ownTags doubles rowHeight root width =
        .start name attributes :: (inside ++ [.close name]) := by
  unfold ownTags
  rcases svgSegments_cases doubles rowHeight root width with ⟨hmessage, _⟩ | ⟨maxDepth, hpicture⟩
  · rw [hmessage]
    exact ⟨_, _, _, .element .nil .nil, rfl⟩
  · have hgroups := content_groups doubles maxDepth rowHeight (rootBytes root)
      (drawn doubles root width)
    rw [hpicture, List.map_append, List.map_append]
    exact ⟨ascii "svg", _, .start (ascii "style") [] :: ([] ++ .close (ascii "style") :: _),
      .element .nil hgroups, rfl⟩

/-- Only white space comes behind the picture. -/
theorem getLast?_svgSegments (root : Option FlameNode) (width : F) :
    ∃ s ∈ (svgSegments doubles rowHeight root width).getLast?,
      Xml.decodeText s.2 = some s.2 ∧ s.2.all Xml.isSpace := by
  rcases svgSegments_cases doubles rowHeight root width with ⟨hmessage, _⟩ | ⟨maxDepth, hpicture⟩
  · rw [hmessage]
    exact ⟨_, rfl, rfl, rfl⟩
  · rw [hpicture]
    exact ⟨_, List.getLast?_concat, by decide, by decide⟩

theorem values_groups (bs : List (Box F)) :
    ((bs.flatMap (groupSegments doubles maxDepth rowHeight totalRootBytes)).map
      fun s => s.1.tag).filterMap (Xml.Tag.value (ascii "g") (ascii "data-name")) =
      bs.map fun b => b.node.name := by
  induction bs with
  | nil => rfl
  | cons b bs ih =>
    rw [List.flatMap_cons, List.map_append, List.filterMap_append, ih, List.map_cons]
    unfold groupSegments labelSegments
    split
    · rfl
    · rfl

/-- The names are the values of the attribute in the generator's tags. -/
theorem values_ownTags (root : Option FlameNode) (width : F) :
    (ownTags doubles rowHeight root width).filterMap
        (Xml.Tag.value (ascii "g") (ascii "data-name")) =
      (drawn doubles root width).map fun b => b.node.name := by
  unfold ownTags
  rcases svgSegments_cases doubles rowHeight root width with
    ⟨hmessage, hnone⟩ | ⟨maxDepth, hpicture⟩
  · rw [hmessage, hnone]
    rfl
  · rw [hpicture, List.map_append, List.map_append, List.filterMap_append,
      List.filterMap_append, values_groups]
    exact List.append_nil _

theorem fields_groups (bs : List (Box F)) :
    Xml.fields (ascii "title")
      (bs.flatMap (groupSegments doubles maxDepth rowHeight totalRootBytes)) =
      bs.map fun b => tooltip doubles totalRootBytes b.node := by
  induction bs with
  | nil => rfl
  | cons b bs ih =>
    rw [List.flatMap_cons, Xml.fields_append, ih, List.map_cons]
    unfold groupSegments labelSegments
    split
    · rfl
    · rfl

/-- The texts behind the start tags of titles are the tooltips. -/
theorem fields_title (root : Option FlameNode) (width : F) :
    Xml.fields (ascii "title") (svgSegments doubles rowHeight root width) =
      (drawn doubles root width).map fun b => tooltip doubles (rootBytes root) b.node := by
  rcases svgSegments_cases doubles rowHeight root width with
    ⟨hmessage, hnone⟩ | ⟨maxDepth, hpicture⟩
  · rw [hmessage, hnone]
    rfl
  · rw [hpicture, Xml.fields_append, Xml.fields_append, fields_groups]
    exact List.append_nil _

theorem plain_styleText : styleText.all Xml.isPlain = true := by decide +kernel

/-- Its title apart, what is written of a node between the tags is character data. -/
theorem decodeText_group {b : Box F}
    (htitle : (Xml.decodeText (tooltip doubles totalRootBytes b.node)).isSome) :
    ∀ s ∈ groupSegments doubles maxDepth rowHeight totalRootBytes b,
      (Xml.decodeText s.2).isSome := by
  have hlabel : ∀ s ∈ labelSegments doubles maxDepth rowHeight b, (Xml.decodeText s.2).isSome := by
    unfold labelSegments
    split
    · refine List.forall_mem_cons.mpr ⟨?_, List.forall_mem_singleton.mpr (by decide)⟩
      rw [decodeText_escapeXml]
      rfl
    · exact List.forall_mem_nil _
  unfold groupSegments
  simp only [List.forall_mem_append, List.forall_mem_cons]
  refine ⟨⟨⟨by decide, htitle, by decide, ?_, ?_⟩, hlabel⟩, by decide, ?_⟩
  · split
    · decide
    · decide
  · exact List.forall_mem_nil _
  · exact List.forall_mem_nil _

theorem decodeText_segments {root : Option FlameNode} {width : F}
    (htitles : ∀ b ∈ drawn doubles root width,
      (Xml.decodeText (tooltip doubles (rootBytes root) b.node)).isSome) :
    ∀ s ∈ svgSegments doubles rowHeight root width, (Xml.decodeText s.2).isSome := by
  rcases svgSegments_cases doubles rowHeight root width with ⟨hmessage, _⟩ | ⟨maxDepth, hpicture⟩
  · rw [hmessage, messageSegments]
    simp only [List.forall_mem_cons]
    exact ⟨rfl, rfl, rfl, rfl, List.forall_mem_nil _⟩
  · rw [hpicture, headSegments]
    simp only [List.forall_mem_append, List.forall_mem_cons]
    refine ⟨⟨⟨by decide, ?_, by decide, ?_⟩, fun s hs => ?_⟩, by decide, ?_⟩
    · rw [Xml.decodeText_of_plain plain_styleText]
      rfl
    · exact List.forall_mem_nil _
    · obtain ⟨b, hb, hs⟩ := List.mem_flatMap.mp hs
      exact decodeText_group doubles _ rowHeight _ (htitles b hb) s hs
    · exact List.forall_mem_nil _

end Segments

/-! ## Titles -/

/-- What a node needs for its title to be read as its name and the figures: it is written as
it is, so it has to stand for itself, and the file name has to be character data. -/
structure TitleSafe (node : FlameNode) : Prop where
  name_lessThan : Xml.lessThan ∉ node.name
  name_ampersand : Xml.ampersand ∉ node.name
  name_sectionEnd : ¬ Xml.sectionEnd <:+: node.name
  file : (Xml.decodeText node.file).isSome

section Title

variable {F : Type} (doubles : Doubles F) (totalRootBytes : Word) (node : FlameNode)

/-- The title between the name and its blank, and the place. -/
def figuresText : Text :=
  let pct := doubles.mul (doubles.div (doubles.ofWord node.totalBytes)
    (doubles.ofWord totalRootBytes)) (doubles.ofInt 100)
  ascii "&#10;Bytes: " ++ (Numeral.write 10 node.totalBytes.toNat ++ (ascii " (" ++
    (doubles.fixed pct ++ (ascii "%) &#10;Allocations: " ++
      Numeral.write 10 node.totalCount.toNat))))

theorem tooltip_eq :
    tooltip doubles totalRootBytes node =
      node.name ++ Xml.blank :: (figuresText doubles totalRootBytes node ++ locationText node) := by
  simp only [tooltip, figuresText, List.append_assoc]
  rfl

theorem locationText_eq (hfile : node.file ≠ []) :
    locationText node =
      ascii " &#10;Location: " ++ (node.file ++ 0x3A#8 :: Numeral.write 10 node.line.toNat) := by
  rw [locationText, if_neg (by simpa using hfile)]
  simp only [List.append_assoc]
  rfl

theorem isSome_decode_plain {t : Text} (h : t.all Xml.isPlain = true) : (Xml.decode t).isSome :=
  Option.isSome_of_eq_some (Xml.decode_of_plain h)

theorem isSome_decode_figuresText : (Xml.decode (figuresText doubles totalRootBytes node)).isSome := by
  unfold figuresText
  rw [Xml.isSome_decode_append (by decide), Xml.isSome_decode_append (isSome_decode_plain (plain_write _)),
    Xml.isSome_decode_append (by decide),
    Xml.isSome_decode_append (isSome_decode_plain (plain_of_number (doubles.all_fixed _))),
    Xml.isSome_decode_append (by decide)]
  exact isSome_decode_plain (plain_write _)

theorem bracket_not_mem_figuresText : 0x5D#8 ∉ figuresText doubles totalRootBytes node := by
  have hwrite (n : ℕ) : 0x5D#8 ∉ Numeral.write 10 n :=
    Xml.not_mem_of_plain (plain_write n) (by decide)
  unfold figuresText
  simp only [List.mem_append, not_or]
  refine ⟨by decide, hwrite _, by decide, ?_, by decide, hwrite _⟩
  exact Xml.not_mem_of_plain (plain_of_number (doubles.all_fixed _)) (by decide)

theorem blank_separates : Xml.isSeparator Xml.blank = true := by decide

theorem colon_separates : Xml.isSeparator 0x3A#8 = true := by decide

theorem isSome_decode_locationText :
    (Xml.decode (locationText node)).isSome = (Xml.decode node.file).isSome := by
  by_cases hfile : node.file = []
  · rw [locationText, hfile]
    rfl
  · rw [locationText_eq node hfile, Xml.isSome_decode_append (by decide), Xml.decode,
      Xml.decode_separated colon_separates, Xml.decode_of_plain (plain_write _), ← Xml.decode]
    cases Xml.decode node.file with
    | none => rfl
    | some d => rfl

theorem sectionEnd_locationText :
    Xml.sectionEnd <:+: locationText node ↔ Xml.sectionEnd <:+: node.file := by
  by_cases hfile : node.file = []
  · rw [locationText, hfile]
    rfl
  · have hline : ¬ Xml.sectionEnd <:+: Numeral.write 10 node.line.toNat :=
      Xml.no_sectionEnd (Xml.not_mem_of_plain (plain_write _) (by decide))
    rw [locationText_eq node hfile, Xml.sectionEnd, Xml.infix_append_iff (by decide),
      ← Xml.sectionEnd, Xml.infix_separated_iff (by decide)]
    exact or_iff_left hline

theorem sectionEnd_tooltip :
    Xml.sectionEnd <:+: tooltip doubles totalRootBytes node ↔
      Xml.sectionEnd <:+: node.name ∨ Xml.sectionEnd <:+: node.file := by
  rw [tooltip_eq, Xml.infix_separated_iff (by decide), ← sectionEnd_locationText node,
    Xml.sectionEnd,
    Xml.infix_append_iff (bracket_not_mem_figuresText doubles totalRootBytes node)]

/-- A title gives its name back exactly when it can go without escaping. -/
theorem readable_title_iff :
    (∃ text, Xml.decodeText (tooltip doubles totalRootBytes node) = some text ∧
      node.name <+: text) ↔ TitleSafe node := by
  have hname := Xml.decode_separated_prefix_iff (t := node.name)
    (s := figuresText doubles totalRootBytes node ++ locationText node) blank_separates
  rw [← tooltip_eq, Xml.isSome_decode_append (isSome_decode_figuresText doubles totalRootBytes node),
    isSome_decode_locationText] at hname
  have hfile : (Xml.decodeText node.file).isSome ↔
      ¬ Xml.sectionEnd <:+: node.file ∧ (Xml.decode node.file).isSome := by
    simp only [Option.isSome_iff_exists, Xml.decodeText_eq_some_iff, exists_and_left]
  constructor
  · rintro ⟨text, htext, hbegin⟩
    obtain ⟨hend, hdecode⟩ := Xml.decodeText_eq_some_iff.mp htext
    obtain ⟨hless, hamp, hsome⟩ := hname.mp ⟨text, hdecode, hbegin⟩
    rw [sectionEnd_tooltip, not_or] at hend
    exact ⟨hless, hamp, hend.1, hfile.mpr ⟨hend.2, hsome⟩⟩
  · intro h
    obtain ⟨hend, hsome⟩ := hfile.mp h.file
    obtain ⟨text, hdecode, hbegin⟩ := hname.mpr ⟨h.name_lessThan, h.name_ampersand, hsome⟩
    refine ⟨text, Xml.decodeText_eq_some_iff.mpr ⟨?_, hdecode⟩, hbegin⟩
    rw [sectionEnd_tooltip, not_or]
    exact ⟨h.name_sectionEnd, hend⟩

end Title

/-! ## The document -/

/-- The document is the generator's own elements, and gives back the names of the nodes drawn:
in the attribute, and at the start of the title. -/
structure ReadsBack {F : Type} (own : List Xml.Tag) (bs : List (Box F)) (doc : Xml.Document) :
    Prop where
  wellFormed : doc.WellFormed
  tags : doc.tagList = own
  dataNames : doc.values (ascii "g") (ascii "data-name") = bs.map fun b => b.node.name
  titles : List.Forall₂ (fun b text => b.node.name <+: text) bs (doc.texts (ascii "title"))

section Document

variable {F : Type} (doubles : Doubles F) (rowHeight : F)

/-- Read with the tags meant, the document is well-formed and gives back the attributes. -/
theorem readsBack_iff {root : Option FlameNode} {width : F} {doc : Xml.Document} :
    (Xml.read (generateSvg doubles root width rowHeight) = some doc ∧
      ReadsBack (ownTags doubles rowHeight root width) (drawn doubles root width) doc) ↔
      doc.leading = [] ∧
        List.Forall₂ (fun s tag => tag.1 = s.1.tag ∧ Xml.decodeText s.2 = some tag.2)
          (svgSegments doubles rowHeight root width) doc.tags ∧
        List.Forall₂ (fun b text => b.node.name <+: text) (drawn doubles root width)
          (doc.texts (ascii "title")) := by
  rw [generateSvg_eq]
  constructor
  · rintro ⟨hread, hback⟩
    obtain ⟨hleading, hsegments⟩ := Xml.read_render_iff.mp ⟨hread, hback.tags⟩
    exact ⟨hleading, hsegments, hback.titles⟩
  · rintro ⟨hleading, hsegments, htitles⟩
    obtain ⟨hread, htags⟩ := Xml.read_render_iff.mpr ⟨hleading, hsegments⟩
    refine ⟨hread, ⟨by rw [hleading]; rfl, ?_, fun tag htag => ?_⟩, htags, ?_, htitles⟩
    · rw [htags]
      exact root_ownTags doubles rowHeight root width
    · obtain ⟨s, hs, htext⟩ := Xml.getLast?_tags hsegments htag
      obtain ⟨s', hs', hsame, hspace⟩ := getLast?_svgSegments doubles rowHeight root width
      obtain rfl := Option.mem_unique hs hs'
      rw [hsame] at htext
      exact (Option.some.inj htext) ▸ hspace
    · rw [Xml.Document.values, htags]
      exact values_ownTags doubles rowHeight root width

/-- Reading gives a document of the generator's own elements, with the names of the nodes, for
exactly the trees whose titles can go without escaping. -/
theorem flamegraph_well_formed_iff (root : Option FlameNode) (width : F) :
    (∃ doc, Xml.read (generateSvg doubles root width rowHeight) = some doc ∧
      ReadsBack (ownTags doubles rowHeight root width) (drawn doubles root width) doc) ↔
      ∀ b ∈ drawn doubles root width, TitleSafe b.node := by
  have htitle (b : Box F) := readable_title_iff doubles (rootBytes root) b.node
  simp only [readsBack_iff]
  constructor
  · rintro ⟨doc, _, hsegments, htitles⟩
    have htexts := Xml.texts_fields hsegments (ascii "title")
    rw [fields_title, List.forall₂_map_left_iff] at htexts
    have hsafe := htexts.mp (S := fun b _ => TitleSafe b.node ∧ True)
      (fun b text hdecode hbegin => ⟨(htitle b).mp ⟨text, hdecode, hbegin⟩, trivial⟩) htitles
    exact ((List.forall₂_and_left _ _).mp hsafe).1
  · intro hsafe
    have hreadable (b : Box F) (hb : b ∈ drawn doubles root width) := (htitle b).mpr (hsafe b hb)
    obtain ⟨doc, hleading, hsegments⟩ := Xml.exists_document
      (decodeText_segments doubles rowHeight fun b hb =>
        (hreadable b hb).elim fun text h => Option.isSome_of_eq_some h.1)
    have htexts := Xml.texts_fields hsegments (ascii "title")
    rw [fields_title, List.forall₂_map_left_iff] at htexts
    refine ⟨doc, hleading, hsegments, ?_⟩
    refine ((List.forall₂_and_left _ _).mpr ⟨hreadable, htexts⟩).imp fun b text h => ?_
    obtain ⟨⟨text', htext', hbegin⟩, htext⟩ := h
    rw [htext'] at htext
    exact (Option.some.inj htext) ▸ hbegin

end Document

/-- The whole part of a number. -/
def wholeText (a : ℚ) : Text :=
  (if a.num < 0 then ascii "-" else []) ++ Numeral.write 10 (a.num.natAbs / a.den)

theorem number_wholeText (a : ℚ) : (wholeText a).all isNumberByte = true := by
  rw [wholeText, List.all_append, number_write, Bool.and_true]
  split
  · decide
  · rfl

/-- Exact numbers. Whole ones are written as the streams write them, below a million. -/
def wholeNumbers : Doubles ℚ where
  ofInt n := n
  ofWord w := w.toNat
  add a b := a + b
  sub a b := a - b
  mul a b := a * b
  div a b := a / b
  lt a b := decide (a < b)
  toSize a := a.num.toNat / a.den
  general := wholeText
  fixed a := wholeText a ++ ascii "." ++ Numeral.write 10 (a.num.natAbs * 10 / a.den % 10)
  all_general := number_wholeText
  all_fixed a := by
    rw [List.all_append, List.all_append, number_wholeText, number_write]
    rfl

/-- One allocation of 64 bytes, made by a function with a template argument. -/
def templateTree : FlameNode where
  name := ascii "all"
  totalBytes := 64
  totalCount := 1
  children := [{
    name := ascii "std::vector<int, std::allocator<int> >::reserve(unsigned long)"
    selfBytes := 64
    totalBytes := 64
    selfCount := 1
    totalCount := 1 }]

theorem flamegraph_template :
    ¬ ∃ doc, Xml.read (generateSvg wholeNumbers (some templateTree) 1000 22) = some doc ∧
      ReadsBack (ownTags wholeNumbers 22 (some templateTree) 1000)
        (drawn wholeNumbers (some templateTree) 1000) doc := by
  have hread : Xml.read (generateSvg wholeNumbers (some templateTree) 1000 22) = none := by
    decide +kernel
  rintro ⟨doc, hdoc, _⟩
  rw [hread] at hdoc
  cases hdoc

end MemSentry.Profiler
