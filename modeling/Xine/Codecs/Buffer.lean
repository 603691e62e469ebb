import Mathlib.Algebra.Group.Int.Defs
import Xine.Library.Instances
import Xine.Library.Octets

/-!
# What decoders get

`buf_element_t` of `buffer.h`, as far as the decoders read it, and palettes. A step of a decoder has the
statics of its file, the decoder and what it puts out.
-/

namespace Xine.Codecs

open Octets (Byte)

structure PaletteEntry where
  r : Byte
  g : Byte
  b : Byte

/-- `buf_element_t`: the flags, and what the decoders read of it. The palette is the table of
`decoder_info[2]` entries that `decoder_info_ptr[2]` points to. Whether `audio_out->open` succeeds if it is
called for this buffer is `output_opens`. -/
structure BufElement where
  preview : Bool
  special : Bool
  header : Bool
  framerate : Bool
  frame_end : Bool
  decoder_info : Vector ℕ 4
  palette : List PaletteEntry
  content : List Byte
  pts : ℤ
  output_opens : Bool

def BUF_SPECIAL_PALETTE : ℕ := 1

/-- `sizeof(xine_bmiheader)`. -/
def BMIHEADER_SIZE : ℕ := 40

/-- Fields of the `xine_bmiheader` at the start of the content. -/
def BufElement.biWidth (buf : BufElement) : ℕ := Octets.ofLittle ((buf.content.drop 4).take 4)
def BufElement.biHeight (buf : BufElement) : ℕ := Octets.ofLittle ((buf.content.drop 8).take 4)
def BufElement.biBitCount (buf : BufElement) : ℕ := Octets.ofLittle ((buf.content.drop 14).take 2)

/-- Three bytes of `yuv_palette`. -/
structure Yuv where
  y : Byte
  u : Byte
  v : Byte
deriving DecidableEq

def Yuv.zero : Yuv := { y := 0, u := 0, v := 0 }

/-- What `COMPUTE_Y`, `COMPUTE_U` and `COMPUTE_V` make of a colour, from tables of rounded products. -/
abbrev Compute := PaletteEntry → Yuv

/-- The loop that loads a palette. The other entries of `yuv_palette` stay as they are, and there are 256
of them. -/
def loadPalette (compute : Compute) (palette : List PaletteEntry) (yuv_palette : ℕ → Yuv) :
    Option (ℕ → Yuv) :=
  if 256 < palette.length then none
  else some fun i => match palette[i]? with
    | some entry => compute entry
    | none => yuv_palette i

def BufElement.decoder_info0 (buf : BufElement) : ℕ := buf.decoder_info[0]
def BufElement.decoder_info1 (buf : BufElement) : ℕ := buf.decoder_info[1]
def BufElement.decoder_info3 (buf : BufElement) : ℕ := buf.decoder_info[3]

/-- Whether a buffer has a palette. -/
def BufElement.hasPalette (buf : BufElement) : Bool :=
  buf.special && decide (buf.decoder_info1 = BUF_SPECIAL_PALETTE)

/-- The palette after a buffer, which may have one. -/
def updatePalette (compute : Compute) (buf : BufElement) (yuv_palette : ℕ → Yuv) : Option (ℕ → Yuv) :=
  if buf.hasPalette then loadPalette compute buf.palette yuv_palette else some yuv_palette

/-- A frame that is drawn: its size and times, and what was decoded. -/
structure Frame (Image : Type) where
  width : ℕ
  height : ℕ
  duration : ℕ
  pts : ℤ
  image : Image

/-- Two results with the same decoder and the same output. -/
abbrev SameResult {Statics Decoder Output : Type} :
    Option (Statics × Decoder × List Output) → Option (Statics × Decoder × List Output) → Prop :=
  Option.Rel fun r r' => r.2 = r'.2

theorem sameResult_rfl {Statics Decoder Output : Type}
    (result : Option (Statics × Decoder × List Output)) : SameResult result result := by
  cases result with
  | none => exact .none
  | some r => exact .some rfl

theorem SameResult.exists_some {Statics Decoder Output : Type}
    {result result' : Option (Statics × Decoder × List Output)} (h : SameResult result result')
    (r : Statics × Decoder × List Output) (hr : result = some r) :
    ∃ r', result' = some r' ∧ r'.2 = r.2 := by
  subst hr
  cases h with
  | some hsame => exact ⟨_, rfl, hsame.symm⟩

end Xine.Codecs
