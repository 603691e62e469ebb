import Xine.Codecs.Adpcm
import Xine.Codecs.Cinepak
import Xine.Codecs.IdCinShared

/-!
# Instances of the decoders

Instances of a decoder that keeps some of its state in static variables.
-/

namespace Xine.Codecs

open Instances (Component World)
open Runs (run Guarded)

/-- The decoders with static variables. -/
inductive Codec
  | vqa
  | dialogic
  | idcin
  | cinepak

def Codec.component (compute : Compute) : Codec → Component
  | .vqa => vqaClass
  | .dialogic => dialogicClass
  | .idcin => idcinClass compute
  | .cinepak => cinepakClass compute

def Codec.spec (compute : Compute) : (codec : Codec) → (codec.component compute).Spec
  | .vqa => vqaSpec
  | .dialogic => dialogicSpec
  | .idcin => idcinSpec compute
  | .cinepak => cinepakSpec compute

/-- A header for mono, with room for eight samples. -/
def monoHeader : BufElement where
  preview := false
  special := false
  header := true
  framerate := false
  frame_end := false
  decoder_info := #v[0, 8, 16, 1]
  palette := []
  content := []
  pts := 0
  output_opens := true

/-- A block of data. -/
def block (content : List Octets.Byte) : BufElement :=
  { monoHeader with header := false, frame_end := true, content := content }

instance {κ : Type} (w : World vqaClass κ) (e : κ × vqaClass.Input) : Decidable (vqaSpec.Fits w e) :=
  have hstep : Decidable ((vqaClass.step w.statics (w.states e.1) e.2).isSome = true) := inferInstance
  @instDecidableAnd _ _ hstep (decidableVqaAgree w.statics (w.own e.1) (w.states e.1) e.2)

/-- Two instances that decode silence, which leaves the static variables, and a last block. -/
def silence : List (Bool × vqaClass.Input) :=
  [(false, monoHeader), (true, monoHeader), (false, block [0x00]), (true, block [0x00]),
    (false, block [0x77])]

end Xine.Codecs
