import Xine.Codecs.Buffer

/-!
# The Id CIN video decoder

`idcinvideo_decode_data` of `idcinvideo.c`, with the Huffman tables that it builds from the histograms of
a header. The tables are static variables. The conversion of a frame to YUY2 is left out. What leaves the
memory that was allocated or written, and a second header, which frees the buffer twice, are `none`.
-/

namespace Xine.Codecs

open Octets (Byte)

abbrev HUF_TOKENS : ℕ := 256

/-! ## Huffman tables -/

/-- `hnode_t`, where the child -1 is `none`. -/
structure HNode where
  count : ℕ
  used : Bool
  children : Option ℕ × Option ℕ

/-- The nodes of a table, of which there are `HUF_TOKENS * 2`. -/
abbrev HNodes := ℕ → HNode

/-- The loop of `huff_smallest_node` over some nodes. -/
def scanNodes (hnodes : HNodes) (nodes : List ℕ) (best : ℕ × Option ℕ) : ℕ × Option ℕ :=
  nodes.foldl
    (fun best i =>
      if (hnodes i).used then best
      else if (hnodes i).count = 0 then best
      else if (hnodes i).count < best.1 then ((hnodes i).count, some i)
      else best)
    best

/-- `huff_smallest_node`: the node, and the nodes with that one used. -/
def huffSmallestNode (hnodes : HNodes) (num_hnodes : ℕ) : Option ℕ × HNodes :=
  match (scanNodes hnodes (List.range num_hnodes) (99999999, none)).2 with
  | none => (none, hnodes)
  | some best_node =>
    (some best_node, Function.update hnodes best_node { hnodes best_node with used := true })

/-- The loop of `huff_build_tree`. There are `fuel` nodes from `num_hnodes` on. -/
def buildLoop : ℕ → HNodes → ℕ → Option (HNodes × ℕ)
  | 0, _, _ => none
  | fuel + 1, hnodes, num_hnodes =>
    let (first, hnodes) := huffSmallestNode hnodes num_hnodes
    let node := { hnodes num_hnodes with children := (first, (hnodes num_hnodes).children.2) }
    let hnodes := Function.update hnodes num_hnodes node
    match first with
    | none => some (hnodes, num_hnodes - 1)
    | some child0 =>
      let (second, hnodes) := huffSmallestNode hnodes num_hnodes
      let node := { hnodes num_hnodes with children := (first, second) }
      let hnodes := Function.update hnodes num_hnodes node
      match second with
      | none => some (hnodes, num_hnodes - 1)
      | some child1 =>
        let node := { node with count := (hnodes child0).count + (hnodes child1).count }
        buildLoop fuel (Function.update hnodes num_hnodes node) (num_hnodes + 1)

/-- `huff_build_tree`: the nodes, and the root. -/
def huffBuildTree (hnodes : HNodes) : Option (HNodes × ℕ) :=
  buildLoop HUF_TOKENS
    (fun i => if i < HUF_TOKENS * 2 then { hnodes i with used := false } else hnodes i) HUF_TOKENS

/-- `huff_nodes` and `num_huff_nodes`. -/
structure HuffTables where
  huff_nodes : ℕ → HNodes
  num_huff_nodes : ℕ → ℕ

def HuffTables.zero : HuffTables where
  huff_nodes := fun _ _ => { count := 0, used := false, children := (some 0, some 0) }
  num_huff_nodes := fun _ => 0

/-- The counts of the tokens of a table. -/
def setCounts (hnodes : HNodes) (histogram : ℕ → Byte) : HNodes :=
  fun j => if j < HUF_TOKENS then { hnodes j with count := (histogram j).toNat } else hnodes j

/-- One table of a header: its counts, from the histograms behind the `xine_bmiheader`, and its tree. -/
def initTable (histograms : ℕ → Byte) (tables : HuffTables) (i : ℕ) : Option HuffTables :=
  (huffBuildTree (setCounts (tables.huff_nodes i) fun j => histograms (i * HUF_TOKENS + j))).map
    fun (hnodes, num) =>
      { huff_nodes := Function.update tables.huff_nodes i hnodes
        num_huff_nodes := Function.update tables.num_huff_nodes i num }

/-- The tables of a header. -/
def initTables (histograms : ℕ → Byte) (tables : HuffTables) : Option HuffTables :=
  (List.range 256).foldlM (initTable histograms) tables

/-! ## Decoding -/

/-- `bit_pos`, `v` and `dat_pos` of `huff_decode`. -/
structure BitReader where
  bit_pos : ℕ
  v : ℕ
  dat_pos : ℕ

/-- What came of the way down a tree: a token, the decode error of the source, or a read of memory that
was not written. -/
inductive Walk
  | token (node_num : ℕ) (reader : BitReader)
  | decodeError
  | outside

/-- The inner loop of `huff_decode`. Each step takes a bit, so their number is enough. -/
def huffWalk (hnodes : HNodes) (mem : List Byte) (size : ℕ) : ℕ → ℕ → BitReader → Walk
  | fuel, node_num, reader =>
    if node_num < HUF_TOKENS then .token node_num reader
    else
      match fuel with
      | 0 => .decodeError
      | fuel + 1 =>
        let next (reader : BitReader) : Walk :=
          let child := if reader.v % 2 = 0 then (hnodes node_num).children.1
            else (hnodes node_num).children.2
          match child with
          | none => .outside
          | some node_num =>
            huffWalk hnodes mem size fuel node_num
              { reader with v := reader.v / 2, bit_pos := reader.bit_pos - 1 }
        if reader.bit_pos = 0 then
          -- The byte after the last one is read, too.
          if size < reader.dat_pos then .decodeError
          else
            match mem[reader.dat_pos]? with
            | none => .outside
            | some v => next { bit_pos := 8, v := v.toNat, dat_pos := reader.dat_pos + 1 }
        else next reader

/-- The loop of `huff_decode` over the pixels that are left. -/
def huffPixels (tables : HuffTables) (yuv_palette : ℕ → Yuv) (mem : List Byte) (size : ℕ) :
    ℕ → ℕ → BitReader → Option (List Yuv)
  | 0, _, _ => some []
  | pixels + 1, prev, reader =>
    match huffWalk (tables.huff_nodes prev) mem size ((size + 2) * 8) (tables.num_huff_nodes prev)
        reader with
    | .token node_num reader =>
      (huffPixels tables yuv_palette mem size pixels node_num reader).map fun planes =>
        yuv_palette node_num :: planes
    | .decodeError => some []
    | .outside => none

/-- `idcinvideo_decoder_t`. `buf` has what was written to the buffer so far, of which the first `size`
bytes are the data; it is `none` for a null pointer. -/
structure IdcinDecoder where
  video_step : ℕ
  decoder_ok : Bool
  buf : Option (List Byte)
  size : ℕ
  width : ℕ
  height : ℕ
  yuv_palette : ℕ → Yuv
  yuv_planes : List Yuv

/-- `open_plugin`. -/
def IdcinDecoder.opened : IdcinDecoder where
  video_step := 0
  decoder_ok := false
  buf := none
  size := 0
  width := 0
  height := 0
  yuv_palette := fun _ => .zero
  yuv_planes := []

/-- `huff_decode`. Where the data end, the other pixels stay those of the frame before. -/
def huffDecode (tables : HuffTables) (this : IdcinDecoder) (mem : List Byte) : Option IdcinDecoder :=
  (huffPixels tables this.yuv_palette mem this.size (this.width * this.height) 0
    { bit_pos := 0, v := 0, dat_pos := 0 }).map fun pixels =>
      { this with yuv_planes := pixels ++ this.yuv_planes.drop pixels.length }

/-- What a step has: the tables, the decoder, and the frames that it drew. -/
abbrev IdcinResult := Option (HuffTables × IdcinDecoder × List (Frame (List Yuv)))

/-- The initialization for a header. -/
def idcinHeader (tables : HuffTables) (this : IdcinDecoder) (buf : BufElement) : IdcinResult :=
  if this.buf ≠ none ∨ buf.content.length < BMIHEADER_SIZE + 256 * HUF_TOKENS ∨
      2^31 ≤ buf.biWidth ∨ 2^31 ≤ buf.biHeight then none
  else
    (initTables (fun i => buf.content.getD (BMIHEADER_SIZE + i) 0) tables).map fun tables =>
      (tables,
        { this with width := buf.biWidth, height := buf.biHeight, video_step := buf.decoder_info1,
                    buf := some [], size := 0, decoder_ok := true,
                    yuv_planes := List.replicate (buf.biWidth * buf.biHeight) .zero }, [])

/-- The accumulation of data, and the frame at its end. -/
def idcinData (tables : HuffTables) (this : IdcinDecoder) (buf : BufElement) : IdcinResult :=
  match this.buf with
  | none => none
  | some mem =>
    let mem := mem.take this.size ++ buf.content ++ mem.drop (this.size + buf.content.length)
    let this := { this with
      buf := some mem
      size := this.size + buf.content.length
      video_step := if buf.framerate then buf.decoder_info0 else this.video_step }
    if buf.frame_end then
      (huffDecode tables this mem).map fun this =>
        (tables, { this with size := 0 },
          [{ width := this.width, height := this.height, duration := this.video_step, pts := buf.pts,
             image := this.yuv_planes }])
    else some (tables, this, [])

def idcinvideoDecodeData (compute : Compute) (tables : HuffTables) (this : IdcinDecoder)
    (buf : BufElement) : IdcinResult :=
  if buf.preview then some (tables, this, [])
  else
    (updatePalette compute buf this.yuv_palette).bind fun yuv_palette =>
      let this := { this with yuv_palette := yuv_palette }
      if buf.header then idcinHeader tables this buf
      else if this.decoder_ok then idcinData tables this buf
      else some (tables, this, [])

end Xine.Codecs
