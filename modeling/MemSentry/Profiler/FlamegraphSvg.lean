import MemSentry.Library.Numeral
import MemSentry.Profiler.Flamegraph

/-!
# The flamegraph as a picture

`FlamegraphGenerator::generate_svg` draws a tree as one group of elements for each node that
is at least one unit wide, the children next to each other above their parent. The picture
is the groups of the boxes drawn, one after the other (`renderNodeSvg_eq`).
-/

namespace MemSentry.Profiler

/-- What numbers are written with: digits, signs, the point, the exponent, `inf` and `nan`. -/
def isNumberByte (c : Byte) : Bool :=
  (0x30 ≤ c.toNat && c.toNat ≤ 0x39) || (0x61 ≤ c.toNat && c.toNat ≤ 0x7A) || c = 0x2B#8 ||
    c = 0x2D#8 || c = 0x2E#8

/-- The arithmetic of `double` and the two formats of the streams. Which numbers come out is
left open. -/
structure Doubles (F : Type) where
  ofInt : ℤ → F
  ofWord : Word → F
  add : F → F → F
  sub : F → F → F
  mul : F → F → F
  div : F → F → F
  lt : F → F → Bool
  toSize : F → ℕ
  /-- As written with the default flags. -/
  general : F → Text
  /-- As written with `std::fixed` and `std::setprecision(1)`. -/
  fixed : F → Text
  all_general : ∀ a, (general a).all isNumberByte = true
  all_fixed : ∀ a, (fixed a).all isNumberByte = true

mutual

def getMaxDepth (depth : ℕ) : FlameNode → ℕ
  | ⟨_, _, _, _, _, _, _, children⟩ => maxChildDepth depth depth children

/-- The loop over the children, with the maximum so far. -/
def maxChildDepth (depth d : ℕ) : List FlameNode → ℕ
  | [] => d
  | child :: rest => maxChildDepth depth (max d (getMaxDepth (depth + 1) child)) rest

end

/-! ## The texts of a node -/

def escapeByte (c : Byte) : Text :=
  if c = 0x26#8 then ascii "&amp;"
  else if c = 0x3C#8 then ascii "&lt;"
  else if c = 0x3E#8 then ascii "&gt;"
  else if c = 0x22#8 then ascii "&quot;"
  else if c = 0x27#8 then ascii "&apos;"
  else [c]

def escapeXml (input : Text) : Text := input.flatMap escapeByte

def nodeHash (name : Text) : BitVec 32 :=
  name.foldl (fun hash c => (hash ^^^ c.setWidth 32) * 0x01000193#32) 0x811c9dc5#32

def hue (name : Text) : ℕ := 200 + (nodeHash name % 50).toNat
def sat (depth : ℕ) : ℕ := 60 + depth * 7 % 30
def light (depth : ℕ) : ℕ := 40 + depth * 5 % 25

/-- The arguments of `render_node_svg` that change from node to node. -/
structure Box (F : Type) where
  node : FlameNode
  x : F
  w : F
  depth : ℕ

section Render

variable {F : Type} (doubles : Doubles F)

/-- The label, cut off to what the box has room for. -/
def labelOf (w : F) (name : Text) : Text :=
  let maxChars := doubles.toSize (doubles.div w (doubles.ofInt 7))
  if maxChars < name.length ∧ 3 < maxChars then name.take (maxChars - 3) ++ ascii "..." else name

def locationText (node : FlameNode) : Text :=
  if node.file.isEmpty then []
  else ascii " &#10;Location: " ++ node.file ++ ascii ":" ++ Numeral.write 10 node.line.toNat

def tooltip (totalRootBytes : Word) (node : FlameNode) : Text :=
  let pct := doubles.mul (doubles.div (doubles.ofWord node.totalBytes)
    (doubles.ofWord totalRootBytes)) (doubles.ofInt 100)
  node.name ++ ascii " &#10;Bytes: " ++ Numeral.write 10 node.totalBytes.toNat ++ ascii " (" ++
    doubles.fixed pct ++ ascii "%) &#10;Allocations: " ++
    Numeral.write 10 node.totalCount.toNat ++ locationText node

variable (maxDepth : ℕ) (rowHeight : F) (totalRootBytes : Word)

def boxTop (depth : ℕ) : F :=
  doubles.add (doubles.mul (doubles.ofInt ((maxDepth : ℤ) - depth))
    (doubles.add rowHeight (doubles.ofInt 2))) (doubles.ofInt 10)

def labelSvg (b : Box F) : Text :=
  let y := boxTop doubles maxDepth rowHeight b.depth
  if doubles.lt (doubles.ofInt 35) b.w then
    ascii "  <text x=\"" ++ doubles.general (doubles.add b.x (doubles.ofInt 4)) ++
      ascii "\" y=\"" ++
      doubles.general (doubles.sub (doubles.add y rowHeight) (doubles.ofInt 6)) ++ ascii "\">" ++
      escapeXml (labelOf doubles b.w b.node.name) ++ ascii "</text>\n"
  else []

/-- What `render_node_svg` writes of the node itself. -/
def groupSvg (b : Box F) : Text :=
  let y := boxTop doubles maxDepth rowHeight b.depth
  ascii "<g class=\"node\" data-name=\"" ++ escapeXml b.node.name ++ ascii "\">\n" ++
    ascii "  <title>" ++ tooltip doubles totalRootBytes b.node ++ ascii "</title>\n" ++
    ascii "  <rect x=\"" ++ doubles.general b.x ++ ascii "\" y=\"" ++ doubles.general y ++
    ascii "\" width=\"" ++ doubles.general b.w ++ ascii "\" height=\"" ++
    doubles.general rowHeight ++ ascii "\" " ++
    ascii "fill=\"hsl(" ++ Numeral.write 10 (hue b.node.name) ++ ascii ", " ++
    Numeral.write 10 (sat b.depth) ++ ascii "%, " ++ Numeral.write 10 (light b.depth) ++
    ascii "%)\"/>\n" ++ labelSvg doubles maxDepth rowHeight b ++ ascii "</g>\n"

/-- The width of a child in a parent of that size. -/
def childWidth (totalBytes : Word) (w : F) (child : FlameNode) : F :=
  doubles.mul (doubles.div (doubles.ofWord child.totalBytes) (doubles.ofWord totalBytes)) w

mutual

def renderNodeSvg (x w : F) (depth : ℕ) : FlameNode → Text
  | node@⟨_, _, _, _, totalBytes, _, _, children⟩ =>
    if doubles.lt w (doubles.ofInt 1) then []
    else
      groupSvg doubles maxDepth rowHeight totalRootBytes { node, x, w, depth } ++
        renderChildren totalBytes w depth x children

/-- The loop over the children; nothing is drawn above a node without bytes. -/
def renderChildren (totalBytes : Word) (w : F) (depth : ℕ) (childX : F) : List FlameNode → Text
  | [] => []
  | child :: rest =>
    if totalBytes = 0 then renderChildren totalBytes w depth childX rest
    else
      let childW := childWidth doubles totalBytes w child
      renderNodeSvg childX childW (depth + 1) child ++
        renderChildren totalBytes w depth (doubles.add childX childW) rest

end

end Render

section Picture

variable {F : Type} (doubles : Doubles F)

def noAllocations : Text :=
  ascii "<svg width=\"100%\" height=\"60\"><text x=\"20\" y=\"35\" fill=\"#8b949e\">No memory " ++
    ascii "allocations to display in flamegraph</text></svg>"

def styleText : Text :=
  ascii "\n" ++
    ascii "  .node rect \x7b stroke: #0d1117; stroke-width: 1px; rx: 3px; cursor: pointer; " ++
    ascii "transition: opacity 0.15s; \x7d\n" ++
    ascii "  .node rect:hover \x7b stroke: #58a6ff; stroke-width: 2px; opacity: 0.9; \x7d\n" ++
    ascii "  .node text \x7b fill: #ffffff; font-family: -apple-system, BlinkMacSystemFont, " ++
    ascii "'Segoe UI', monospace; font-size: 11px; pointer-events: none; \x7d\n"

def svgHeight (maxDepth : ℕ) (rowHeight : F) : F :=
  doubles.add (doubles.mul (doubles.ofInt (maxDepth + 1))
    (doubles.add rowHeight (doubles.ofInt 2))) (doubles.ofInt 40)

/-- `generate_svg`; a null pointer is `none`. -/
def generateSvg (root : Option FlameNode) (width rowHeight : F) : Text :=
  match root with
  | none => noAllocations
  | some root =>
    if root.totalBytes = 0 then noAllocations
    else
      let maxDepth := getMaxDepth 0 root
      ascii "<svg class=\"flamegraph-svg\" viewBox=\"0 0 " ++ doubles.general width ++ ascii " " ++
        doubles.general (svgHeight doubles maxDepth rowHeight) ++ ascii "\" width=\"100%\" " ++
        ascii "xmlns=\"http://www.w3.org/2000/svg\">\n" ++ ascii "<style>" ++ styleText ++
        ascii "</style>\n" ++
        renderNodeSvg doubles maxDepth rowHeight root.totalBytes (doubles.ofInt 0) width 0 root ++
        ascii "</svg>\n"

end Picture

/-! ## The boxes drawn -/

section Boxes

variable {F : Type} (doubles : Doubles F)

mutual

/-- The nodes that are drawn below a node, with their places. -/
def boxes (x w : F) (depth : ℕ) : FlameNode → List (Box F)
  | node@⟨_, _, _, _, totalBytes, _, _, children⟩ =>
    if doubles.lt w (doubles.ofInt 1) then []
    else { node, x, w, depth } :: childBoxes totalBytes w depth x children

def childBoxes (totalBytes : Word) (w : F) (depth : ℕ) (childX : F) :
    List FlameNode → List (Box F)
  | [] => []
  | child :: rest =>
    if totalBytes = 0 then []
    else
      boxes childX (childWidth doubles totalBytes w child) (depth + 1) child ++
        childBoxes totalBytes w depth
          (doubles.add childX (childWidth doubles totalBytes w child)) rest

end

/-- The boxes of a picture. -/
def drawn (root : Option FlameNode) (width : F) : List (Box F) :=
  match root with
  | none => []
  | some root => if root.totalBytes = 0 then [] else boxes doubles (doubles.ofInt 0) width 0 root

variable (maxDepth : ℕ) (rowHeight : F) (totalRootBytes : Word)

theorem renderChildren_zero (w childX : F) (depth : ℕ) (nodes : List FlameNode) :
    renderChildren doubles maxDepth rowHeight totalRootBytes 0 w depth childX nodes = [] := by
  induction nodes with
  | nil => rw [renderChildren]
  | cons child rest ih => rw [renderChildren, if_pos rfl, ih]

mutual

theorem renderNodeSvg_eq (x w : F) (depth : ℕ) : ∀ node : FlameNode,
    renderNodeSvg doubles maxDepth rowHeight totalRootBytes x w depth node =
      (boxes doubles x w depth node).flatMap (groupSvg doubles maxDepth rowHeight totalRootBytes)
  | ⟨name, file, line, selfBytes, totalBytes, selfCount, totalCount, children⟩ => by
    rw [renderNodeSvg, boxes]
    by_cases hw : doubles.lt w (doubles.ofInt 1) = true
    · rw [if_pos hw, if_pos hw]
      rfl
    · rw [if_neg hw, if_neg hw, renderChildren_eq totalBytes w depth x children,
        List.flatMap_cons]

theorem renderChildren_eq (totalBytes : Word) (w : F) (depth : ℕ) (childX : F) :
    ∀ nodes : List FlameNode,
      renderChildren doubles maxDepth rowHeight totalRootBytes totalBytes w depth childX nodes =
        (childBoxes doubles totalBytes w depth childX nodes).flatMap
          (groupSvg doubles maxDepth rowHeight totalRootBytes)
  | [] => by rw [renderChildren, childBoxes, List.flatMap_nil]
  | child :: rest => by
    by_cases hzero : totalBytes = 0
    · rw [hzero, renderChildren_zero, childBoxes, if_pos rfl]
      rfl
    · rw [renderChildren, childBoxes, if_neg hzero, if_neg hzero, List.flatMap_append]
      dsimp only
      rw [renderNodeSvg_eq _ _ _ child, renderChildren_eq totalBytes w depth _ rest]

end

end Boxes

end MemSentry.Profiler
