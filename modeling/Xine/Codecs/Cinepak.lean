import Xine.Codecs.Buffer

/-!
# The Cinepak decoder

`cvid_decode_data` of `cinepak.c`. The palette and the colour depth are static variables, and a codebook
of four bytes for an entry looks at them. The bytes of such entries are noted as `lookups`. What leaves the
memory that was allocated or written, and a chunk that is not advanced over, are `none`.
-/

namespace Xine.Codecs

open Octets (Byte)

def MAX_STRIPS : ℕ := 32

def BE_16 (data : List Byte) : ℕ := Octets.ofBig (data.take 2)
def BE_32 (data : List Byte) : ℕ := Octets.ofBig (data.take 4)

/-- `yuv_palette` and `color_depth`. -/
structure CinepakStatics where
  yuv_palette : ℕ → Yuv
  color_depth : ℕ

def CinepakStatics.zero : CinepakStatics := { yuv_palette := fun _ => .zero, color_depth := 0 }

structure CvidCodebook where
  y0 : Byte
  y1 : Byte
  y2 : Byte
  y3 : Byte
  u : Byte
  v : Byte

/-- The entries of a codebook. -/
abbrev Codebook := ℕ → CvidCodebook

/-- `cvid_strip_t`. The id is not read. -/
structure CvidStrip where
  x1 : ℕ
  y1 : ℕ
  x2 : ℕ
  y2 : ℕ
  v4_codebook : Codebook
  v1_codebook : Codebook

def CvidStrip.zero : CvidStrip where
  x1 := 0
  y1 := 0
  x2 := 0
  y2 := 0
  v4_codebook := fun _ => { y0 := 0, y1 := 0, y2 := 0, y3 := 0, u := 0, v := 0 }
  v1_codebook := fun _ => { y0 := 0, y1 := 0, y2 := 0, y3 := 0, u := 0, v := 0 }

/-! ## Codebooks -/

/-- The mean of four bytes. -/
def mean (a b c d : Byte) : Byte := BitVec.ofNat 8 ((a.toNat + b.toNat + c.toNat + d.toNat) / 4)

/-- An entry of six bytes. -/
def codebookEntry6 (data : List Byte) : CvidCodebook where
  y0 := data.getD 0 0
  y1 := data.getD 1 0
  y2 := data.getD 2 0
  y3 := data.getD 3 0
  u := 128 + data.getD 4 0
  v := 128 + data.getD 5 0

/-- An entry of four bytes: places in the palette, or grey. -/
def codebookEntry4 (statics : CinepakStatics) (data : List Byte) : CvidCodebook :=
  if statics.color_depth = 8 then
    let entry (i : ℕ) : Yuv := statics.yuv_palette (data.getD i 0).toNat
    { y0 := (entry 0).y
      y1 := (entry 1).y
      y2 := (entry 2).y
      y3 := (entry 3).y
      u := mean (entry 0).u (entry 1).u (entry 2).u (entry 3).u
      v := mean (entry 0).v (entry 1).v (entry 2).v (entry 3).v }
  else
    { y0 := data.getD 0 0
      y1 := data.getD 1 0
      y2 := data.getD 2 0
      y3 := data.getD 3 0
      u := 128
      v := 128 }

/-- `mask >>= 1`, and the next flags where the mask is used up. `none` where they are not in the data. -/
def nextFlag (data : List Byte) (flag mask : ℕ) : Option (List Byte × ℕ × ℕ) :=
  if mask / 2 = 0 then
    if data.length < 4 then none else some (data.drop 4, BE_32 data, 0x80000000)
  else some (data, flag, mask / 2)

/-- The loop of `cinepak_decode_codebook` over the entries that are left, with the bytes looked up. -/
def codebookLoop (statics : CinepakStatics) (chunk_id : ℕ) :
    ℕ → List Byte → ℕ → ℕ → Codebook → Codebook × List Byte
  | 0, _, _, _, codebook => (codebook, [])
  | left + 1, data, flag, mask, codebook =>
    let i := 255 - left
    match if chunk_id &&& 0x0100 ≠ 0 then nextFlag data flag mask else some (data, flag, mask) with
    | none => (codebook, [])
    | some (data, flag, mask) =>
      if chunk_id &&& 0x0100 = 0 ∨ flag &&& mask ≠ 0 then
        if chunk_id &&& 0x0400 ≠ 0 then
          if data.length < 4 then (codebook, [])
          else
            let (codebook, lookups) := codebookLoop statics chunk_id left (data.drop 4) flag mask
              (Function.update codebook i (codebookEntry4 statics data))
            (codebook, data.take 4 ++ lookups)
        else if data.length < 6 then (codebook, [])
        else
          codebookLoop statics chunk_id left (data.drop 6) flag mask
            (Function.update codebook i (codebookEntry6 data))
      else codebookLoop statics chunk_id left data flag mask codebook

def cinepakDecodeCodebook (statics : CinepakStatics) (codebook : Codebook) (chunk_id : ℕ)
    (data : List Byte) : Codebook × List Byte :=
  codebookLoop statics chunk_id 256 data 0 0 codebook

/-! ## Vectors -/

/-- `cvid_decoder_t`. `buf` are the `size` bytes of data, and `current` the bytes that were written of the
`current_size` bytes of the picture. -/
structure CvidDecoder where
  video_step : ℕ
  decoder_ok : Bool
  buf : List Byte
  strips : ℕ → CvidStrip
  coded_width : ℕ
  coded_height : ℕ
  luma_pitch : ℕ
  chroma_pitch : ℕ
  chroma_size : ℕ
  current : ℕ → Option Byte
  current_size : ℕ
  width : ℕ
  height : ℕ

/-- `open_plugin`. -/
def CvidDecoder.opened : CvidDecoder where
  video_step := 0
  decoder_ok := false
  buf := []
  strips := fun _ => .zero
  coded_width := 0
  coded_height := 0
  luma_pitch := 0
  chroma_pitch := 0
  chroma_size := 0
  current := fun _ => none
  current_size := 0
  width := 0
  height := 0

/-- Stores to the picture. -/
def CvidDecoder.store (this : CvidDecoder) (stores : List (ℕ × Byte)) : Option CvidDecoder :=
  stores.foldlM
    (fun this (address, b) =>
      if address < this.current_size then
        some { this with current := Function.update this.current address (some b) }
      else none)
    this

/-- The addresses of a pixel of a block, and of its colours. -/
def CvidDecoder.lumaAt (this : CvidDecoder) (x y row column : ℕ) : ℕ :=
  x + (y + row) * this.luma_pitch + column
def CvidDecoder.uAt (this : CvidDecoder) (x1 x y row column : ℕ) : ℕ :=
  x1 / 2 + (x - x1) / 2 + (y / 2 + row) * this.chroma_pitch + column + 4 * this.chroma_size
def CvidDecoder.vAt (this : CvidDecoder) (x1 x y row column : ℕ) : ℕ :=
  x1 / 2 + (x - x1) / 2 + (y / 2 + row) * this.chroma_pitch + column + 5 * this.chroma_size

/-- A quarter of a block: its four pixels, and its colours. -/
def CvidDecoder.quarter (this : CvidDecoder) (x1 x y row column : ℕ) (p00 p01 p10 p11 u v : Byte) :
    List (ℕ × Byte) :=
  [(this.lumaAt x y (2 * row) (2 * column), p00), (this.lumaAt x y (2 * row) (2 * column + 1), p01),
   (this.lumaAt x y (2 * row + 1) (2 * column), p10),
   (this.lumaAt x y (2 * row + 1) (2 * column + 1), p11),
   (this.uAt x1 x y row column, u), (this.vAt x1 x y row column, v)]

/-- A block from one entry. -/
def CvidDecoder.paintV1 (this : CvidDecoder) (x1 x y : ℕ) (e : CvidCodebook) : Option CvidDecoder :=
  this.store
    (this.quarter x1 x y 0 0 e.y0 e.y0 e.y0 e.y0 e.u e.v ++
     this.quarter x1 x y 0 1 e.y1 e.y1 e.y1 e.y1 e.u e.v ++
     this.quarter x1 x y 1 0 e.y2 e.y2 e.y2 e.y2 e.u e.v ++
     this.quarter x1 x y 1 1 e.y3 e.y3 e.y3 e.y3 e.u e.v)

/-- A block from four entries. -/
def CvidDecoder.paintV4 (this : CvidDecoder) (x1 x y : ℕ) (e0 e1 e2 e3 : CvidCodebook) :
    Option CvidDecoder :=
  this.store
    (this.quarter x1 x y 0 0 e0.y0 e0.y1 e0.y2 e0.y3 e0.u e0.v ++
     this.quarter x1 x y 0 1 e1.y0 e1.y1 e1.y2 e1.y3 e1.u e1.v ++
     this.quarter x1 x y 1 0 e2.y0 e2.y1 e2.y2 e2.y3 e2.u e2.v ++
     this.quarter x1 x y 1 1 e3.y0 e3.y1 e3.y2 e3.y3 e3.u e3.v)

/-- The variables of `cinepak_decode_vectors`. -/
structure VectorState where
  this : CvidDecoder
  data : List Byte
  flag : ℕ
  mask : ℕ

/-- What a block is to be: left as it is, or from entries of a codebook. `none` where the data end. -/
def nextVector (strip : CvidStrip) (chunk_id : ℕ) (x y : ℕ) (s : VectorState) :
    Option (Option VectorState) :=
  match if chunk_id &&& 0x0100 ≠ 0 then nextFlag s.data s.flag s.mask else some (s.data, s.flag, s.mask) with
  | none => some none
  | some (data, flag, mask) =>
    if chunk_id &&& 0x0100 = 0 ∨ flag &&& mask ≠ 0 then
      match if chunk_id &&& 0x0200 = 0 then nextFlag data flag mask else some (data, flag, mask) with
      | none => some none
      | some (data, flag, mask) =>
        if chunk_id &&& 0x0200 ≠ 0 ∨ flag &&& mask = 0 ∧ mask ≠ 0 then
          match data with
          | [] => some none
          | d0 :: data =>
            (s.this.paintV1 strip.x1 x y (strip.v1_codebook d0.toNat)).map fun this =>
              some { this := this, data := data, flag := flag, mask := mask }
        else if flag &&& mask ≠ 0 then
          match data with
          | d0 :: d1 :: d2 :: d3 :: data =>
            (s.this.paintV4 strip.x1 x y (strip.v4_codebook d0.toNat) (strip.v4_codebook d1.toNat)
              (strip.v4_codebook d2.toNat) (strip.v4_codebook d3.toNat)).map fun this =>
                some { this := this, data := data, flag := flag, mask := mask }
          | _ => some none
        else some (some { s with data := data, flag := flag, mask := mask })
    else some (some { s with data := data, flag := flag, mask := mask })

/-- The blocks of a strip in their order. -/
def CvidStrip.blocks (strip : CvidStrip) : List (ℕ × ℕ) :=
  (List.range ((strip.y2 - strip.y1 + 3) / 4)).flatMap fun j =>
    (List.range ((strip.x2 - strip.x1 + 3) / 4)).map fun i => (strip.x1 + 4 * i, strip.y1 + 4 * j)

/-- `cinepak_decode_vectors` on the blocks that are left: the decoder, and whether the data were enough. -/
def decodeVectors (strip : CvidStrip) (chunk_id : ℕ) :
    List (ℕ × ℕ) → VectorState → Option (CvidDecoder × Bool)
  | [], s => some (s.this, true)
  | (x, y) :: blocks, s =>
    match nextVector strip chunk_id x y s with
    | none => none
    | some none => some (s.this, false)
    | some (some s) => decodeVectors strip chunk_id blocks s

/-! ## Strips and frames -/

/-- What is done with a chunk of a strip: a codebook is decoded and the loop goes on, with the bytes
looked up, or the vectors are decoded and the strip is at its end. -/
def stripChunk (statics : CinepakStatics) (this : CvidDecoder) (strip : CvidStrip) (chunk_id : ℕ)
    (chunk : List Byte) : Option ((CvidStrip × List Byte) ⊕ (CvidDecoder × Bool)) :=
  if chunk_id ∈ [0x2000, 0x2100, 0x2400, 0x2500] then
    let (codebook, lookups) := cinepakDecodeCodebook statics strip.v4_codebook chunk_id chunk
    some (.inl ({ strip with v4_codebook := codebook }, lookups))
  else if chunk_id ∈ [0x2200, 0x2300, 0x2600, 0x2700] then
    let (codebook, lookups) := cinepakDecodeCodebook statics strip.v1_codebook chunk_id chunk
    some (.inl ({ strip with v1_codebook := codebook }, lookups))
  else if chunk_id ∈ [0x3000, 0x3100, 0x3200] then
    (decodeVectors strip chunk_id strip.blocks { this := this, data := chunk, flag := 0, mask := 0 }).map
      .inr
  else some (.inl (strip, []))

/-- What the loop over the chunks of a strip has: the decoder, the strip, whether it was decoded, and the
bytes looked up. -/
abbrev StripResult := CvidDecoder × CvidStrip × Bool × List Byte

/-- The loop of `cinepak_decode_strip` over the data that are left. A chunk of size 0 is gone through for
ever, and every other one advances, so the length of the data is enough. -/
def stripLoop (statics : CinepakStatics) :
    ℕ → CvidDecoder → CvidStrip → List Byte → Option StripResult
  | 0, this, strip, _ => some (this, strip, false, [])
  | fuel + 1, this, strip, data =>
    if data.length < 4 then some (this, strip, false, [])
    else
      let size := BE_16 (data.drop 2)
      -- What is behind the header; nothing where the size is that of a part of the header.
      match stripChunk statics this strip (BE_16 data) ((data.drop 4).take (size - 4)) with
      | none => none
      | some (.inr (this, ok)) => some (this, strip, ok, [])
      | some (.inl (strip, lookups)) =>
        if size = 0 then none
        else
          (stripLoop statics fuel this strip (data.drop size)).map fun (this, strip, ok, rest) =>
            (this, strip, ok, lookups ++ rest)

def cinepakDecodeStrip (statics : CinepakStatics) (this : CvidDecoder) (strip : CvidStrip)
    (data : List Byte) : Option StripResult :=
  if this.coded_width ≤ strip.x1 ∨ this.coded_width < strip.x2 ∨ this.coded_height ≤ strip.y1 ∨
      this.coded_height < strip.y2 ∨ strip.x2 ≤ strip.x1 ∨ strip.y2 ≤ strip.y1 then
    some (this, strip, false, [])
  else stripLoop statics data.length this strip data

/-- The loop of `cinepak_decode_frame` over the strips that are left. -/
def frameLoop (statics : CinepakStatics) (frame_flags : ℕ) :
    ℕ → ℕ → CvidDecoder → List Byte → ℕ → Option (CvidDecoder × Bool × List Byte)
  | 0, _, this, _, _ => some (this, true, [])
  | left + 1, i, this, data, y0 =>
    if data.length < 12 then some (this, false, [])
    else
      let before := this.strips (i - 1)
      let copied := decide (0 < i) && decide (frame_flags &&& 0x01 = 0)
      let strip : CvidStrip :=
        { x1 := 0
          y1 := y0
          x2 := this.coded_width % 2^16
          y2 := (y0 + BE_16 (data.drop 8)) % 2^16
          v4_codebook := if copied then before.v4_codebook else (this.strips i).v4_codebook
          v1_codebook := if copied then before.v1_codebook else (this.strips i).v1_codebook }
      let strip_size := BE_16 (data.drop 2) - 12
      let data := data.drop 12
      match cinepakDecodeStrip statics this strip (data.take strip_size) with
      | none => none
      | some (this, strip, ok, lookups) =>
        let this := { this with strips := Function.update this.strips i strip }
        if ok then
          (frameLoop statics frame_flags left (i + 1) this (data.drop strip_size) strip.y2).map
            fun (this, ok, rest) => (this, ok, lookups ++ rest)
        else some (this, false, lookups)

/-- `cinepak_decode_frame`: the decoder, whether the frame was decoded, and the bytes looked up. -/
def cinepakDecodeFrame (statics : CinepakStatics) (this : CvidDecoder) (data : List Byte) :
    Option (CvidDecoder × Bool × List Byte) :=
  if data.length < 10 then some (this, false, [])
  else
    frameLoop statics (data.getD 0 0).toNat (min (BE_16 (data.drop 8)) MAX_STRIPS) 0 this (data.drop 10) 0

/-- A plane of the picture. -/
def CvidDecoder.plane (this : CvidDecoder) (offset pitch width height : ℕ) : Option (List Byte) :=
  ((List.range height).flatMap fun row =>
    (List.range width).map fun column => this.current (offset + row * pitch + column)).mapM id

def cinepakCopyFrame (this : CvidDecoder) : Option (List (List Byte)) :=
  [this.plane 0 this.luma_pitch this.width this.height,
   this.plane (4 * this.chroma_size) this.chroma_pitch (this.width / 2) (this.height / 2),
   this.plane (5 * this.chroma_size) this.chroma_pitch (this.width / 2) (this.height / 2)].mapM id

/-- What a step has: the statics, the decoder, and the frames that it drew. A bad frame has no planes. -/
abbrev CvidResult := Option (CinepakStatics × CvidDecoder × List (Frame (Option (List (List Byte)))))

/-- The initialization for a header. What is new of the picture is not written. -/
def cvidHeader (statics : CinepakStatics) (this : CvidDecoder) (buf : BufElement) : CvidResult :=
  let width := (buf.biWidth + 1) / 2 * 2
  let height := (buf.biHeight + 1) / 2 * 2
  let coded_width := (width + 3) / 4 * 4
  let coded_height := (height + 3) / 4 * 4
  let chroma_size := coded_width / 2 * (coded_height / 2)
  if buf.content.length < BMIHEADER_SIZE ∨ 2^31 ≤ buf.biWidth ∨ 2^31 ≤ buf.biHeight ∨
      2^31 ≤ 6 * chroma_size then none
  else
    some ({ statics with color_depth := buf.biBitCount },
      { this with
        video_step := buf.decoder_info1
        width := width
        height := height
        coded_width := coded_width
        coded_height := coded_height
        luma_pitch := coded_width
        chroma_pitch := coded_width / 2
        chroma_size := chroma_size
        current := fun i => if i < 6 * chroma_size then this.current i else none
        current_size := 6 * chroma_size
        buf := []
        decoder_ok := true }, [])

/-- The accumulation of data. -/
def CvidDecoder.accumulate (this : CvidDecoder) (buf : BufElement) : CvidDecoder :=
  { this with
    buf := this.buf ++ buf.content
    video_step := if buf.framerate then buf.decoder_info0 else this.video_step }

/-- What is done with a data buffer. -/
def cvidData (statics : CinepakStatics) (this : CvidDecoder) (buf : BufElement) : CvidResult :=
  let this := this.accumulate buf
  if buf.frame_end then
    match cinepakDecodeFrame statics this this.buf with
    | none => none
    | some (this, ok, _) =>
      (if ok then (cinepakCopyFrame this).map some else some none).map fun image =>
        (statics, { this with buf := [] },
          [{ width := this.width, height := this.height, duration := this.video_step, pts := buf.pts,
             image := image }])
  else some (statics, this, [])

def cvidDecodeData (compute : Compute) (statics : CinepakStatics) (this : CvidDecoder) (buf : BufElement) :
    CvidResult :=
  if buf.preview then some (statics, this, [])
  else
    (updatePalette compute buf statics.yuv_palette).bind fun yuv_palette =>
      let statics := { statics with yuv_palette := yuv_palette }
      if buf.header then cvidHeader statics this buf
      else if this.decoder_ok then cvidData statics this buf
      else some (statics, this, [])

end Xine.Codecs

/-!
## The palette of the Cinepak decoder

A frame is decoded alike with two statics that agree on what it looks up: whether the colour depth is 8,
and in that case the entries of the palette.
-/

namespace Xine.Codecs

open Octets (Byte)

variable {statics statics' : CinepakStatics} {lookups rest : List Byte}

/-- The statics agree on the bytes that are looked up. -/
def LookupsAgree (statics statics' : CinepakStatics) (lookups : List Byte) : Prop :=
  lookups ≠ [] → (statics.color_depth = 8 ↔ statics'.color_depth = 8) ∧
    (statics.color_depth = 8 →
      ∀ b ∈ lookups, statics.yuv_palette b.toNat = statics'.yuv_palette b.toNat)

theorem LookupsAgree.left (h : LookupsAgree statics statics' (lookups ++ rest)) :
    LookupsAgree statics statics' lookups := by
  intro hne
  obtain ⟨hdepth, hpalette⟩ := h fun hnil => hne (List.append_eq_nil_iff.1 hnil).1
  exact ⟨hdepth, fun height b hb => hpalette height b (List.mem_append_left _ hb)⟩

theorem LookupsAgree.right (h : LookupsAgree statics statics' (lookups ++ rest)) :
    LookupsAgree statics statics' rest := by
  intro hne
  obtain ⟨hdepth, hpalette⟩ := h fun hnil => hne (List.append_eq_nil_iff.1 hnil).2
  exact ⟨hdepth, fun height b hb => hpalette height b (List.mem_append_right _ hb)⟩

/-! ## Codebooks -/

theorem getD_mem_take {data : List Byte} (hlength : 4 ≤ data.length) {i : ℕ} (hi : i < 4) :
    data.getD i 0 ∈ data.take 4 := by
  have hlt : i < data.length := Nat.lt_of_lt_of_le hi hlength
  rw [List.getD_eq_getElem?_getD, List.getElem?_eq_getElem hlt]
  exact List.mem_take_iff_getElem.2 ⟨i, by omega, rfl⟩

theorem codebookEntry4_same {data : List Byte} (hlength : 4 ≤ data.length)
    (h : LookupsAgree statics statics' (data.take 4)) :
    codebookEntry4 statics data = codebookEntry4 statics' data := by
  have hne : data.take 4 ≠ [] := List.ne_nil_of_mem (getD_mem_take hlength (by decide : 0 < 4))
  obtain ⟨hdepth, hpalette⟩ := h hne
  unfold codebookEntry4
  by_cases height : statics.color_depth = 8
  · have hentry : ∀ i < 4, statics.yuv_palette (data.getD i 0).toNat =
        statics'.yuv_palette (data.getD i 0).toNat :=
      fun i hi => hpalette height _ (getD_mem_take hlength hi)
    rw [if_pos height, if_pos (hdepth.1 height)]
    dsimp only
    rw [hentry 0 (by decide), hentry 1 (by decide), hentry 2 (by decide), hentry 3 (by decide)]
  · rw [if_neg height, if_neg fun height' => height (hdepth.2 height')]

theorem codebookLoop_same {chunk_id left flag mask : ℕ} {data : List Byte} {codebook : Codebook}
    (h : LookupsAgree statics statics' (codebookLoop statics chunk_id left data flag mask codebook).2) :
    codebookLoop statics chunk_id left data flag mask codebook =
      codebookLoop statics' chunk_id left data flag mask codebook := by
  induction left generalizing data flag mask codebook with
  | zero => rfl
  | succ left ih =>
    unfold codebookLoop at h ⊢
    dsimp only at h ⊢
    generalize (if chunk_id &&& 0x0100 ≠ 0 then nextFlag data flag mask else some (data, flag, mask)) =
      next at h ⊢
    cases next with
    | none => rfl
    | some next =>
      obtain ⟨data, flag, mask⟩ := next
      dsimp only at h ⊢
      by_cases hflag : chunk_id &&& 0x0100 = 0 ∨ flag &&& mask ≠ 0
      · rw [if_pos hflag] at h ⊢
        rw [if_pos hflag]
        by_cases hfour : chunk_id &&& 0x0400 ≠ 0
        · rw [if_pos hfour] at h ⊢
          rw [if_pos hfour]
          by_cases hlength : data.length < 4
          · rw [if_pos hlength, if_pos hlength]
          · rw [if_neg hlength] at h ⊢
            rw [if_neg hlength]
            have hentry := codebookEntry4_same (Nat.not_lt.1 hlength) h.left
            rw [ih h.right, hentry]
        · rw [if_neg hfour] at h ⊢
          rw [if_neg hfour]
          by_cases hlength : data.length < 6
          · rw [if_pos hlength, if_pos hlength]
          · rw [if_neg hlength] at h ⊢
            rw [if_neg hlength]
            exact ih h
      · rw [if_neg hflag] at h ⊢
        rw [if_neg hflag]
        exact ih h

/-! ## Strips and frames -/

variable {this this' : CvidDecoder} {strip strip' : CvidStrip} {data : List Byte} {ok : Bool}

theorem decodeCodebook_same {chunk_id : ℕ} {codebook : Codebook}
    (h : LookupsAgree statics statics' (cinepakDecodeCodebook statics codebook chunk_id data).2) :
    cinepakDecodeCodebook statics codebook chunk_id data =
      cinepakDecodeCodebook statics' codebook chunk_id data :=
  codebookLoop_same h

theorem stripChunk_same {chunk_id : ℕ} {chunk : List Byte}
    {result : (CvidStrip × List Byte) ⊕ (CvidDecoder × Bool)}
    (h : stripChunk statics this strip chunk_id chunk = some result)
    (hagree : ∀ r, result = .inl r → LookupsAgree statics statics' r.2) :
    stripChunk statics' this strip chunk_id chunk = some result := by
  unfold stripChunk at h ⊢
  by_cases hv4 : chunk_id ∈ [0x2000, 0x2100, 0x2400, 0x2500]
  · rw [if_pos hv4] at h ⊢
    have hsame := decodeCodebook_same (hagree _ (Option.some.inj h).symm)
    rw [← hsame]
    exact h
  · rw [if_neg hv4] at h ⊢
    by_cases hv1 : chunk_id ∈ [0x2200, 0x2300, 0x2600, 0x2700]
    · rw [if_pos hv1] at h ⊢
      have hsame := decodeCodebook_same (hagree _ (Option.some.inj h).symm)
      rw [← hsame]
      exact h
    · rw [if_neg hv1] at h ⊢
      exact h

theorem stripLoop_same {fuel : ℕ}
    (h : stripLoop statics fuel this strip data = some (this', strip', ok, lookups))
    (hagree : LookupsAgree statics statics' lookups) :
    stripLoop statics' fuel this strip data = some (this', strip', ok, lookups) := by
  induction fuel generalizing strip data lookups with
  | zero => exact h
  | succ fuel ih =>
    unfold stripLoop at h ⊢
    by_cases hlength : data.length < 4
    · rw [if_pos hlength] at h ⊢
      exact h
    · rw [if_neg hlength] at h ⊢
      dsimp only at h ⊢
      split at h
      · cases h
      · rename_i this₁ ok₁ hchunk
        rw [stripChunk_same hchunk fun r hr => absurd hr Sum.inr_ne_inl]
        exact h
      · rename_i strip₁ lookups₁ hchunk
        split at h
        · cases h
        · rename_i hsize
          obtain ⟨⟨this₂, strip₂, ok₂, rest⟩, hrest, heq⟩ := Option.map_eq_some_iff.1 h
          cases heq
          rw [stripChunk_same hchunk fun r hr => by
            cases hr
            exact hagree.left]
          dsimp only
          rw [if_neg hsize, ih hrest hagree.right]
          rfl

theorem decodeStrip_same
    (h : cinepakDecodeStrip statics this strip data = some (this', strip', ok, lookups))
    (hagree : LookupsAgree statics statics' lookups) :
    cinepakDecodeStrip statics' this strip data = some (this', strip', ok, lookups) := by
  unfold cinepakDecodeStrip at h ⊢
  split at h
  · rename_i hdims
    rw [if_pos hdims]
    exact h
  · rename_i hdims
    rw [if_neg hdims]
    exact stripLoop_same h hagree

theorem frameLoop_same {frame_flags left i y0 : ℕ}
    (h : frameLoop statics frame_flags left i this data y0 = some (this', ok, lookups))
    (hagree : LookupsAgree statics statics' lookups) :
    frameLoop statics' frame_flags left i this data y0 = some (this', ok, lookups) := by
  induction left generalizing i this data y0 lookups with
  | zero => exact h
  | succ left ih =>
    unfold frameLoop at h ⊢
    by_cases hlength : data.length < 12
    · rw [if_pos hlength] at h ⊢
      exact h
    · rw [if_neg hlength] at h ⊢
      dsimp only at h ⊢
      split at h
      · cases h
      · rename_i this₁ strip₁ ok₁ lookups₁ hstrip
        split at h
        · rename_i hok
          obtain ⟨⟨this₂, ok₂, rest⟩, hrest, heq⟩ := Option.map_eq_some_iff.1 h
          cases heq
          rw [decodeStrip_same hstrip hagree.left]
          dsimp only
          rw [if_pos hok, ih hrest hagree.right]
          rfl
        · rename_i hok
          cases h
          rw [decodeStrip_same hstrip hagree]
          exact if_neg hok

theorem decodeFrame_same
    (h : cinepakDecodeFrame statics this data = some (this', ok, lookups))
    (hagree : LookupsAgree statics statics' lookups) :
    cinepakDecodeFrame statics' this data = some (this', ok, lookups) := by
  unfold cinepakDecodeFrame at h ⊢
  split at h
  · rename_i hlength
    rw [if_pos hlength]
    exact h
  · rename_i hlength
    rw [if_neg hlength]
    exact frameLoop_same h hagree

/-! ## Steps -/

variable {compute : Compute} {buf : BufElement}

/-- What a step needs: the statics, with the palette of the buffer, agree on what the frame looks up. -/
def CinepakAgree (compute : Compute) (statics statics' : CinepakStatics) (this : CvidDecoder)
    (buf : BufElement) : Prop :=
  buf.preview = false → buf.header = false → this.decoder_ok = true → buf.frame_end = true →
    ∀ yuv_palette ∈ updatePalette compute buf statics.yuv_palette,
    ∀ yuv_palette' ∈ updatePalette compute buf statics'.yuv_palette,
    ∀ result ∈ cinepakDecodeFrame { statics with yuv_palette := yuv_palette } (this.accumulate buf)
      (this.accumulate buf).buf,
    LookupsAgree { statics with yuv_palette := yuv_palette }
      { statics' with yuv_palette := yuv_palette' } result.2.2

theorem exists_updatePalette {palette yuv_palette : ℕ → Yuv} (palette' : ℕ → Yuv)
    (h : updatePalette compute buf palette = some yuv_palette) :
    ∃ yuv_palette', updatePalette compute buf palette' = some yuv_palette' := by
  unfold updatePalette loadPalette at h ⊢
  split at h
  · rename_i hhas
    rw [if_pos hhas]
    split at h
    · cases h
    · rename_i hlength
      exact ⟨_, if_neg hlength⟩
  · rename_i hhas
    exact ⟨_, if_neg hhas⟩

theorem cvidHeader_same {r : CinepakStatics × CvidDecoder × List (Frame (Option (List (List Byte))))}
    (h : cvidHeader statics this buf = some r) :
    ∃ r', cvidHeader statics' this buf = some r' ∧ r'.2 = r.2 := by
  unfold cvidHeader at h ⊢
  dsimp only at h ⊢
  split at h
  · cases h
  · rename_i hfits
    cases h
    exact ⟨_, if_neg hfits, rfl⟩

theorem cvidData_same {r : CinepakStatics × CvidDecoder × List (Frame (Option (List (List Byte))))}
    (hagree : buf.frame_end = true →
      ∀ result ∈ cinepakDecodeFrame statics (this.accumulate buf) (this.accumulate buf).buf,
      LookupsAgree statics statics' result.2.2)
    (h : cvidData statics this buf = some r) :
    ∃ r', cvidData statics' this buf = some r' ∧ r'.2 = r.2 := by
  unfold cvidData at h ⊢
  dsimp only at h ⊢
  split at h
  · rename_i hend
    rw [if_pos hend]
    split at h
    · cases h
    · rename_i this' ok lookups hframe
      rw [decodeFrame_same hframe (hagree hend _ hframe)]
      obtain ⟨image, himage, rfl⟩ := Option.map_eq_some_iff.1 h
      exact ⟨_, Option.map_eq_some_iff.2 ⟨image, himage, rfl⟩, rfl⟩
  · rename_i hend
    cases h
    exact ⟨_, if_neg hend, rfl⟩

theorem cinepak_same (hagree : CinepakAgree compute statics statics' this buf)
    (r : CinepakStatics × CvidDecoder × List (Frame (Option (List (List Byte)))))
    (h : cvidDecodeData compute statics this buf = some r) :
    ∃ r', cvidDecodeData compute statics' this buf = some r' ∧ r'.2 = r.2 := by
  unfold cvidDecodeData at h ⊢
  split at h
  · rename_i hpreview
    cases h
    exact ⟨_, if_pos hpreview, rfl⟩
  · rename_i hpreview
    obtain ⟨yuv_palette, hpalette, h⟩ := Option.bind_eq_some_iff.1 h
    obtain ⟨yuv_palette', hpalette'⟩ := exists_updatePalette statics'.yuv_palette hpalette
    rw [if_neg hpreview, hpalette', Option.bind_some]
    dsimp only at h ⊢
    split at h
    · rename_i hheader
      rw [if_pos hheader]
      exact cvidHeader_same h
    · rename_i hheader
      rw [if_neg hheader]
      split at h
      · rename_i hok
        rw [if_pos hok]
        refine cvidData_same (fun hend result hresult => ?_) h
        exact hagree (Bool.eq_false_iff.2 hpreview) (Bool.eq_false_iff.2 hheader) hok hend _ hpalette _
          hpalette' result hresult
      · rename_i hok
        cases h
        exact ⟨_, if_neg hok, rfl⟩

/-- Cinepak decoders. -/
def cinepakClass (compute : Compute) : Instances.Component where
  Statics := CinepakStatics
  State := CvidDecoder
  Input := BufElement
  Output := Frame (Option (List (List Byte)))
  statics := .zero
  opened := .opened
  step := cvidDecodeData compute

def cinepakSpec (compute : Compute) : (cinepakClass compute).Spec where
  Agree := CinepakAgree compute
  Inv := fun _ _ => True
  opened := trivial
  own := fun _ _ => trivial
  other := fun _ _ => trivial
  agree := fun _ _ => cinepak_same

end Xine.Codecs
