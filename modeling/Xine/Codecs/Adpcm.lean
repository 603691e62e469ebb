import Xine.Codecs.Buffer

/-!
# The ADPCM decoder

`adpcm_decode_data` of `adpcm.c` with `vqa_adpcm_decode_block` and `dialogic_ima_decode_block`. Both keep
their predictors and indices in static variables. What the audio output does with a buffer is left out.
A store outside of the decode buffer, and data before a header, are `none`.
-/

namespace Xine.Codecs

open Octets (Byte)

/-! ## Tables -/

def ima_adpcm_step : Vector ℕ 89 :=
  #v[7, 8, 9, 10, 11, 12, 13, 14, 16, 17,
    19, 21, 23, 25, 28, 31, 34, 37, 41, 45,
    50, 55, 60, 66, 73, 80, 88, 97, 107, 118,
    130, 143, 157, 173, 190, 209, 230, 253, 279, 307,
    337, 371, 408, 449, 494, 544, 598, 658, 724, 796,
    876, 963, 1060, 1166, 1282, 1411, 1552, 1707, 1878, 2066,
    2272, 2499, 2749, 3024, 3327, 3660, 4026, 4428, 4871, 5358,
    5894, 6484, 7132, 7845, 8630, 9493, 10442, 11487, 12635, 13899,
    15289, 16818, 18500, 20350, 22385, 24623, 27086, 29794, 32767]

def dialogic_ima_step : Vector ℕ 49 :=
  #v[16, 17, 19, 21, 23, 25, 28, 31, 34, 37, 41, 45,
    50, 55, 60, 66, 73, 80, 88, 97, 107, 118, 130, 143,
    157, 173, 190, 209, 230, 253, 279, 307, 337, 371, 408, 449,
    494, 544, 598, 658, 724, 796, 876, 963, 1060, 1166, 1282, 1411, 1552]

def ima_adpcm_index : Vector ℤ 16 := #v[-1, -1, -1, -1, 2, 4, 6, 8, -1, -1, -1, -1, 2, 4, 6, 8]

/-- `AUDIO_BUF_SIZE`, the `mem_size` of an audio buffer. -/
def AUDIO_BUF_SIZE : ℕ := 32768

/-- `CLAMP_0_TO_88` and `CLAMP_0_TO_48`. -/
def clampIndex (top : ℕ) (x : ℤ) : Fin (top + 1) :=
  if h : x < 0 then 0 else if h' : (top : ℤ) < x then Fin.last top else ⟨x.toNat, by omega⟩

/-- `CLAMP_S16` and `CLAMP_S12`. -/
def clamp (low high x : ℤ) : ℤ := if x < low then low else if high < x then high else x

/-! ## The decoder and its output -/

/-- The nibbles of a byte. -/
def lowNibble (b : Byte) : Fin 16 := ⟨b.toNat % 16, Nat.mod_lt _ (by decide)⟩
def highNibble (b : Byte) : Fin 16 := ⟨b.toNat / 16, by have := b.isLt; omega⟩

/-- `audio_buffer_t`, with its samples as words. -/
structure AudioBuffer where
  vpts : ℤ
  num_frames : ℕ
  mem : List ℕ
deriving DecidableEq

/-- `adpcm_decoder_t`. `buf` has the `size` bytes that were accumulated; it is `none` until a header
has come. -/
structure AdpcmDecoder where
  rate : ℕ
  channels : ℕ
  output_open : Bool
  buf : Option (List Byte)
  out_block_size : ℕ

/-- `open_plugin`. -/
def AdpcmDecoder.opened : AdpcmDecoder where
  rate := 0
  channels := 0
  output_open := false
  buf := none
  out_block_size := 0

/-- The words of the decode buffer, which is allocated with `out_block_size * 2` bytes. -/
def AdpcmDecoder.decodeWords (this : AdpcmDecoder) : ℕ := this.out_block_size * 2 % 2^32 / 2

/-- What a step has: the statics, the decoder, and the audio buffers that it put. -/
abbrev AdpcmResult (Statics : Type) := Option (Statics × AdpcmDecoder × List AudioBuffer)

/-- `adpcm_decode_data` for a type of audio, with the size of its decode buffer and its function for a
block. -/
def adpcmDecodeData {Statics : Type} (outBlockSize : ℕ → ℕ → ℕ)
    (decodeBlock : Statics → AdpcmDecoder → List Byte → BufElement → AdpcmResult Statics)
    (statics : Statics) (this : AdpcmDecoder) (buf : BufElement) : AdpcmResult Statics :=
  if buf.header then
    let rate := buf.decoder_info1
    let channels := buf.decoder_info3
    some (statics,
      { this with rate := rate, channels := channels, buf := some [],
                  out_block_size := outBlockSize rate channels }, [])
  else
    let this := { this with output_open := this.output_open || buf.output_opens }
    if !this.output_open then some (statics, this, [])
    else
      match this.buf with
      | none => none
      | some data =>
        let data := data ++ buf.content
        let this := { this with buf := some data }
        if buf.frame_end then decodeBlock statics this data buf else some (statics, this, [])

/-! ## VQA IMA -/

/-- The predictor and the index of a channel. -/
structure ImaChannel where
  predictor : ℤ
  index : Fin 89
deriving DecidableEq

/-- The static variables of `vqa_adpcm_decode_block`. -/
structure VqaStatics where
  left : ImaChannel
  right : ImaChannel

def VqaStatics.zero : VqaStatics where
  left := { predictor := 0, index := 0 }
  right := { predictor := 0, index := 0 }

/-- The difference for a nibble. -/
def nibbleDiff (step : ℕ) (delta : Fin 16) : ℤ :=
  let diff := step >>> 3
  let diff := if delta.val &&& 4 ≠ 0 then diff + step else diff
  let diff := if delta.val &&& 2 ≠ 0 then diff + step >>> 1 else diff
  let diff := if delta.val &&& 1 ≠ 0 then diff + step >>> 2 else diff
  if delta.val &&& 8 ≠ 0 then -(diff : ℤ) else diff

/-- One nibble of a channel: the sample, as a word, and the channel after it. The step is always that of
the index. -/
def imaNibble (channel : ImaChannel) (delta : Fin 16) : ℕ × ImaChannel :=
  let predictor :=
    clamp (-32768) 32767 (channel.predictor + nibbleDiff ima_adpcm_step[channel.index] delta)
  ((predictor % 2^16).toNat,
    { predictor := predictor, index := clampIndex 88 (channel.index + ima_adpcm_index[delta]) })

/-- The loop of `decode_ima_nibbles`, which goes on with the channel `channel_number`. -/
def decodeImaNibbles (channels : ℕ) (channel_number : ℕ) (statics : VqaStatics) :
    List (Fin 16) → Option (List ℕ × VqaStatics)
  | [] => some ([], statics)
  | delta :: output =>
    let next := channel_number ^^^ ((channels + (2^32 - 1)) % 2^32)
    match channel_number with
    | 0 =>
      let (sample, left) := imaNibble statics.left delta
      (decodeImaNibbles channels next { statics with left := left } output).map fun (samples, statics) =>
        (sample :: samples, statics)
    | 1 =>
      let (sample, right) := imaNibble statics.right delta
      (decodeImaNibbles channels next { statics with right := right } output).map fun (samples, statics) =>
        (sample :: samples, statics)
    -- The arrays have two channels.
    | _ => none

/-- The nibbles in the order of the samples. The last byte for the left channel, if there is none for the
right one after it, is not decoded. -/
def vqaNibbles (channels : ℕ) (data : List Byte) : List (Fin 16) :=
  if channels = 1 then data.flatMap fun b => [lowNibble b, highNibble b]
  else stereo data
where
  stereo : List Byte → List (Fin 16)
    | left :: right :: data =>
      lowNibble left :: lowNibble right :: highNibble left :: highNibble right :: stereo data
    | _ => []

/-- The words of the decode buffer up to the last one that the nibbles are put into. -/
def vqaExtent (channels : ℕ) (data : List Byte) : ℕ :=
  if channels = 1 then data.length * 2
  else data.length / 2 * 4 + if data.length % 2 = 1 then 3 else 0

/-- The loop that dispatches the decoded audio. It takes a sample at least each time, so the number of
samples is enough. Only the first buffer gets the pts. -/
def dispatch (channels : ℕ) : ℕ → ℤ → List ℕ → List AudioBuffer
  | 0, _, _ => []
  | fuel + 1, pts, samples =>
    if samples.isEmpty then []
    else
      let bytes_to_send :=
        if AUDIO_BUF_SIZE < samples.length * 2 then AUDIO_BUF_SIZE else samples.length * 2
      { vpts := pts
        num_frames := bytes_to_send / 2 / channels
        mem := samples.take (bytes_to_send / 2) } ::
        dispatch channels fuel 0 (samples.drop (bytes_to_send / 2))

def vqaAdpcmDecodeBlock (statics : VqaStatics) (this : AdpcmDecoder) (data : List Byte)
    (buf : BufElement) : AdpcmResult VqaStatics :=
  if this.decodeWords < vqaExtent this.channels data then none
  else
    (decodeImaNibbles this.channels 0 statics (vqaNibbles this.channels data)).map
      fun (samples, statics) =>
        (statics, { this with buf := some [] }, dispatch this.channels samples.length buf.pts samples)

/-- `adpcm_decode_data` for VQA IMA. The decode buffer is for a second of audio. -/
def vqaDecodeData : VqaStatics → AdpcmDecoder → BufElement → AdpcmResult VqaStatics :=
  adpcmDecodeData (fun rate channels => rate * channels % 2^32) vqaAdpcmDecodeBlock

/-! ## Dialogic IMA -/

/-- The static variables of `dialogic_ima_decode_block`. -/
structure DialogicStatics where
  predictor : ℤ
  index : Fin 49
deriving DecidableEq

def DialogicStatics.initial : DialogicStatics := { predictor := 0, index := 16 }

/-- The loop over the nibbles. -/
def dialogicLoop (statics : DialogicStatics) (step : ℕ) : List (Fin 16) → List ℕ × DialogicStatics
  | [] => ([], statics)
  | delta :: nibbles =>
    let index := clampIndex 48 (statics.index + ima_adpcm_index[delta])
    let predictor := clamp (-2048) 2048 (statics.predictor + nibbleDiff step delta)
    let (samples, statics) :=
      dialogicLoop { predictor := predictor, index := index } dialogic_ima_step[index] nibbles
    ((predictor * 16 % 2^16).toNat :: samples, statics)

/-- `dialogic_ima_decode_block`. The decode buffer is enlarged for the last buffer only, and the first
step is the index itself. -/
def dialogicImaDecodeBlock (statics : DialogicStatics) (this : AdpcmDecoder) (data : List Byte)
    (buf : BufElement) : AdpcmResult DialogicStatics :=
  let block_size := buf.content.length * 2 % 2^32
  let this :=
    if this.out_block_size < block_size then { this with out_block_size := block_size } else this
  let nibbles := data.flatMap fun b => [highNibble b, lowNibble b]
  if this.decodeWords < nibbles.length ∨ AUDIO_BUF_SIZE < nibbles.length * 2 then none
  else
    let (samples, statics) := dialogicLoop statics statics.index nibbles
    some (statics, { this with buf := some [] },
      [{ vpts := buf.pts, num_frames := nibbles.length, mem := samples }])

/-- `adpcm_decode_data` for Dialogic IMA. There is no decode buffer at first. -/
def dialogicDecodeData : DialogicStatics → AdpcmDecoder → BufElement → AdpcmResult DialogicStatics :=
  adpcmDecodeData (fun _ _ => 0) dialogicImaDecodeBlock

end Xine.Codecs

/-!
## The static variables of the ADPCM decoder

What a step of an ADPCM decoder needs of the static variables: those of the channels for which it decodes
samples, and none if it decodes no samples.
-/

namespace Xine.Codecs

open Octets (Byte)

variable {Statics : Type} {this : AdpcmDecoder} {buf : BufElement}

/-- The data of the block that a step decodes. -/
def AdpcmDecoder.block (this : AdpcmDecoder) (buf : BufElement) : Option (List Byte) :=
  if !buf.header && (this.output_open || buf.output_opens) && buf.frame_end then
    this.buf.map fun data => data ++ buf.content
  else none

theorem adpcmDecodeData_same {outBlockSize : ℕ → ℕ → ℕ}
    {decodeBlock : Statics → AdpcmDecoder → List Byte → BufElement → AdpcmResult Statics}
    {statics statics' : Statics}
    (hblock : ∀ data decoder, this.block buf = some data → decoder.channels = this.channels →
      SameResult (decodeBlock statics decoder data buf) (decodeBlock statics' decoder data buf)) :
    SameResult (adpcmDecodeData outBlockSize decodeBlock statics this buf)
      (adpcmDecodeData outBlockSize decodeBlock statics' this buf) := by
  unfold adpcmDecodeData
  unfold AdpcmDecoder.block at hblock
  dsimp only
  by_cases hheader : buf.header = true
  · rw [if_pos hheader, if_pos hheader]
    exact .some rfl
  · rw [if_neg hheader, if_neg hheader]
    rw [Bool.eq_false_iff.2 hheader] at hblock
    cases hopen : this.output_open || buf.output_opens with
    | false => exact .some rfl
    | true =>
      rw [hopen] at hblock
      cases hbuf : this.buf with
      | none => exact .none
      | some data =>
        rw [hbuf] at hblock
        cases hend : buf.frame_end with
        | false => exact .some rfl
        | true =>
          rw [hend] at hblock
          exact hblock _ _ rfl rfl

/-! ## VQA IMA -/

/-- What a step needs: the left channel if there are samples, and the right one if there are two. -/
def VqaAgree (statics statics' : VqaStatics) (this : AdpcmDecoder) (buf : BufElement) : Prop :=
  ∀ data ∈ this.block buf, vqaNibbles this.channels data ≠ [] →
    statics.left = statics'.left ∧ (this.channels ≠ 1 → statics.right = statics'.right)

instance decidableVqaAgree (statics statics' : VqaStatics) (this : AdpcmDecoder) (buf : BufElement) :
    Decidable (VqaAgree statics statics' this buf) :=
  match hblock : this.block buf with
  | none => isTrue (by simp [VqaAgree, hblock])
  | some data =>
    decidable_of_iff (vqaNibbles this.channels data ≠ [] →
      statics.left = statics'.left ∧ (this.channels ≠ 1 → statics.right = statics'.right))
      (by simp [VqaAgree, hblock])

theorem decodeImaNibbles_mono (left right right' : ImaChannel) (nibbles : List (Fin 16)) :
    decodeImaNibbles 1 0 { left := left, right := right } nibbles =
      (decodeImaNibbles 1 0 { left := left, right := right' } nibbles).map
        fun r => (r.1, { r.2 with right := right }) := by
  induction nibbles generalizing left with
  | nil => rfl
  | cons delta nibbles ih =>
    show Option.map _ (decodeImaNibbles 1 0 _ nibbles) =
      Option.map _ (Option.map _ (decodeImaNibbles 1 0 _ nibbles))
    rw [ih, Option.map_map, Option.map_map]
    rfl

theorem vqa_same {statics statics' : VqaStatics} (h : VqaAgree statics statics' this buf) :
    SameResult (vqaDecodeData statics this buf) (vqaDecodeData statics' this buf) := by
  apply adpcmDecodeData_same
  intro data decoder hdata hchannels
  have hagree := h data hdata
  rw [← hchannels] at hagree
  unfold vqaAdpcmDecodeBlock
  split
  · exact .none
  · by_cases hnil : vqaNibbles decoder.channels data = []
    · rw [hnil]
      exact .some rfl
    · obtain ⟨hleft, hright⟩ := hagree hnil
      obtain ⟨left, right⟩ := statics
      obtain ⟨left', right'⟩ := statics'
      obtain rfl : left = left' := hleft
      by_cases hmono : decoder.channels = 1
      · rw [hmono, decodeImaNibbles_mono left right right']
        cases decodeImaNibbles 1 0 { left := left, right := right' } (vqaNibbles 1 data) with
        | none => exact .none
        | some r => exact .some rfl
      · obtain rfl : right = right' := hright hmono
        exact sameResult_rfl _

/-- VQA IMA decoders. -/
def vqaClass : Instances.Component where
  Statics := VqaStatics
  State := AdpcmDecoder
  Input := BufElement
  Output := AudioBuffer
  statics := .zero
  opened := .opened
  step := vqaDecodeData

def vqaSpec : vqaClass.Spec where
  Agree := VqaAgree
  Inv := fun _ _ => True
  opened := trivial
  own := fun _ _ => trivial
  other := fun _ _ => trivial
  agree := fun _ _ h => (vqa_same h).exists_some

/-! ## Dialogic IMA -/

/-- What a step needs: the predictor and the index, if there are samples. -/
def DialogicAgree (statics statics' : DialogicStatics) (this : AdpcmDecoder) (buf : BufElement) : Prop :=
  ∀ data ∈ this.block buf, data ≠ [] → statics = statics'

theorem dialogic_same {statics statics' : DialogicStatics} (h : DialogicAgree statics statics' this buf) :
    SameResult (dialogicDecodeData statics this buf) (dialogicDecodeData statics' this buf) := by
  apply adpcmDecodeData_same
  intro data decoder hdata _
  by_cases hnil : data = []
  · subst hnil
    unfold dialogicImaDecodeBlock
    dsimp only
    generalize (if decoder.out_block_size < buf.content.length * 2 % 2^32 then
      { decoder with out_block_size := buf.content.length * 2 % 2^32 } else decoder) = enlarged
    split
    · exact .none
    · exact .some rfl
  · rw [h data hdata hnil]
    exact sameResult_rfl _

/-- Dialogic IMA decoders. -/
def dialogicClass : Instances.Component where
  Statics := DialogicStatics
  State := AdpcmDecoder
  Input := BufElement
  Output := AudioBuffer
  statics := .initial
  opened := .opened
  step := dialogicDecodeData

def dialogicSpec : dialogicClass.Spec where
  Agree := DialogicAgree
  Inv := fun _ _ => True
  opened := trivial
  own := fun _ _ => trivial
  other := fun _ _ => trivial
  agree := fun _ _ h => (dialogic_same h).exists_some

end Xine.Codecs
