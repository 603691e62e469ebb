import Xine.Demux.Track
import Xine.Library.Slots

/-!
# Track maps

The map of the tracks of a stream, in which `audio_decoder_loop` of `audio_decoder.c` and
`video_decoder_loop` of `video_decoder.c` register the types of the buffers that they get:
an array of 50 types, of which the first ones are in use. A map that is reset keeps its array, so that the
slots behind the ones in use hold types of earlier tracks.
-/

namespace Xine.Tracks

open SortedSlots

theorem any_eq_iff_mem (type : BitVec 32) (types : List (BitVec 32)) :
    (types.any fun t => decide (t = type)) = true ↔ type ∈ types := by
  simp

scoped instance decidableMemTypes (type : BitVec 32) (types : List (BitVec 32)) :
    Decidable (type ∈ types) :=
  decidable_of_iff _ (any_eq_iff_mem type types)

/-- `audio_track_map` and `audio_track_map_entries`, or `spu_track_map` and `spu_track_map_entries`. -/
structure TrackMap where
  map : List (BitVec 32)
  entries : ℕ

namespace TrackMap

/-- As a stream is set up. -/
def start : TrackMap := ⟨List.replicate 50 0, 0⟩

/-- `audio_track_map_entries = 0`. -/
def reset (m : TrackMap) : TrackMap := { m with entries := 0 }

/-- The types in use. -/
def registered (m : TrackMap) : List (BitVec 32) := m.map.take m.entries

/-- The update of the map by a type, with whether the buffer goes on: a buffer of a new type is dropped when the
map is full. It is `none` for an access outside of the array. -/
def update (m : TrackMap) (type : BitVec 32) : Option (TrackMap × Bool) :=
  let i := findPlace BitVec.toNat m.map type m.entries 0
  if i = m.entries ∨ m.map[i]? ≠ some type then
    if m.entries ≥ 50 then some (m, false)
    else (insertAt m.map m.entries i type).map fun map => (⟨map, m.entries + 1⟩, true)
  else some (m, true)

/-- The types in use are strictly sorted, and lie in the array. -/
structure Valid (m : TrackMap) : Prop where
  length_eq : m.map.length = 50
  entries_le : m.entries ≤ 50
  sorted : m.registered.Pairwise fun x y => x.toNat < y.toNat

theorem valid_start : start.Valid := ⟨rfl, Nat.zero_le _, List.Pairwise.nil⟩

theorem Valid.reset {m : TrackMap} (h : m.Valid) : m.reset.Valid :=
  ⟨h.length_eq, Nat.zero_le _, List.Pairwise.nil⟩

theorem Valid.length_registered {m : TrackMap} (h : m.Valid) : m.registered.length = m.entries := by
  have hle := h.entries_le
  rw [registered, List.length_take, h.length_eq]
  omega

/-- What an update does: it keeps the map valid, and a buffer that goes on has a registered type, which counts
once. It is dropped only if its type is new to a full map. -/
structure Updated (m : TrackMap) (type : BitVec 32) (m' : TrackMap) (goes_on : Bool) : Prop where
  valid : m'.Valid
  mem : goes_on = true → type ∈ m'.registered
  entries_eq : goes_on = true → m'.entries = m.entries + if type ∈ m.registered then 0 else 1
  subset : ∀ t ∈ m.registered, t ∈ m'.registered
  goes_on_iff : goes_on = true ↔ type ∈ m.registered ∨ m.entries < 50

theorem Valid.update {m : TrackMap} (h : m.Valid) (type : BitVec 32) :
    ∃ m' goes_on, m.update type = some (m', goes_on) ∧ Updated m type m' goes_on := by
  have hle := h.entries_le
  have hlength := h.length_eq
  have hn : m.entries ≤ m.map.length := by omega
  have hkey : Function.Injective (BitVec.toNat : BitVec 32 → ℕ) := fun _ _ => BitVec.eq_of_toNat_eq
  obtain ⟨hplace, -, -⟩ := @findPlace_spec _ _ _ BitVec.toNat m.map type m.entries hn
  have hmem : type ∈ m.registered ↔ _ := @mem_iff_findPlace _ _ _ BitVec.toNat m.map type m.entries hn h.sorted
  unfold TrackMap.update
  by_cases hnew : findPlace BitVec.toNat m.map type m.entries 0 = m.entries ∨
      m.map[findPlace BitVec.toNat m.map type m.entries 0]? ≠ some type
  · have hnot : type ∉ m.registered := fun hin => by
      obtain ⟨hlt, hat⟩ := hmem.1 hin
      exact hnew.elim (fun heq => absurd heq hlt.ne) fun hne => hne hat
    simp only [if_pos hnew]
    by_cases hfull : m.entries ≥ 50
    · rw [if_pos hfull]
      refine ⟨m, false, rfl, h, ?_, ?_, fun t ht => ht, ?_⟩
      · exact fun hgo => absurd hgo Bool.false_ne_true
      · exact fun hgo => absurd hgo Bool.false_ne_true
      · exact iff_of_false Bool.false_ne_true (not_or.2 ⟨hnot, Nat.not_lt.2 hfull⟩)
    · rw [if_neg hfull]
      obtain ⟨map', hinsert, hlength', htake⟩ := insertAt_spec hplace (by omega : m.entries < m.map.length) type
      refine ⟨⟨map', m.entries + 1⟩, true, by rw [hinsert, Option.map_some], ?_⟩
      have hregistered : (⟨map', m.entries + 1⟩ : TrackMap).registered = _ := htake
      refine ⟨⟨hlength'.trans hlength, Nat.lt_of_not_le hfull, ?_⟩, fun _ => ?_, fun _ => ?_, fun t ht => ?_, ?_⟩
      · exact Sorted.insert hkey hn h.sorted hnot htake
      · rw [hregistered]
        exact List.mem_append_right _ List.mem_cons_self
      · rw [if_neg hnot]
      · -- the other types are those below the place, and those behind it
        rw [hregistered, List.mem_append]
        change t ∈ m.map.take m.entries at ht
        rw [← List.take_append_drop (findPlace BitVec.toNat m.map type m.entries 0) (m.map.take m.entries),
          List.take_take, Nat.min_eq_left hplace, List.mem_append] at ht
        exact ht.imp id (List.mem_cons_of_mem _)
      · exact iff_of_true rfl (Or.inr (Nat.lt_of_not_le hfull))
  · obtain ⟨hne, hat⟩ := not_or.1 hnew
    have hin : type ∈ m.registered := hmem.2 ⟨lt_of_le_of_ne hplace hne, not_not.1 hat⟩
    simp only [if_neg hnew]
    refine ⟨m, true, rfl, h, fun _ => hin, fun _ => ?_, fun t ht => ht, ?_⟩
    · rw [if_pos hin, Nat.add_zero]
    · exact iff_of_true rfl (Or.inl hin)

theorem mem_registered {m : TrackMap} {i : ℕ} {t : BitVec 32} (hi : i < m.entries) (h : m.map[i]? = some t) :
    t ∈ m.registered := by
  apply List.mem_of_getElem? (i := i)
  rw [registered, List.getElem?_take_of_lt hi]
  exact h

end TrackMap

end Xine.Tracks

/-!
## The decoder loops and the choice of a track

What the decoder loops do with the track maps: `audio_decoder_loop` of `audio_decoder.c`
decodes the buffers of one audio type, which it looks up in the audio map by the channel that the user has set,
or by the one that the demuxer suggests; `video_decoder_loop` of `video_decoder.c` sets the spu
channel in the same way. The user sets the channels with `xine_set_param` at any time.

A decoder plugin is open or not, and what `get_audio_decoder` or `get_spu_decoder` gives is part of a buffer.
-/

namespace Xine.Tracks

open Demux

def bufControlQuit : BitVec 32 := 0x01020000#32

def bufControlAudioChannel : BitVec 32 := 0x01050000#32

def bufControlSpuChannel : BitVec 32 := 0x01060000#32

def bufAudioBase : BitVec 32 := 0x03000000#32

def bufSpuBase : BitVec 32 := 0x04000000#32

/-- `audio_type = -1`: no type is chosen. -/
def noType : BitVec 32 := 0xFFFFFFFF#32

/-! ## Audio -/

/-- The control buffers that leave the fields here as they are. -/
def otherAudioControls : List (BitVec 32) :=
  [bufControlHeadersDone, bufControlNop, bufControlResetDecoder, bufControlDiscontinuity, bufControlNewpts]

/-- The fields of a stream that the audio loop uses, and its `buftype_unknown` and `running`. -/
structure AudioLoop where
  tracks : TrackMap
  audio_channel_user : ℤ
  audio_channel_auto : ℤ
  audio_decoder_plugin : Bool
  audio_decoder_streamtype : BitVec 32
  audio_type : BitVec 32
  audio_handled : Bool
  ignore_audio : Bool
  buftype_unknown : BitVec 32
  running : Bool

namespace AudioLoop

/-- `audio_decoder_init`. -/
def start : AudioLoop := ⟨.start, -1, -1, false, 0xFFFFFFFF#32, 0, false, false, 0, true⟩

/-- The plugin is closed, and the map is reset with it. -/
def close (s : AudioLoop) : AudioLoop :=
  if s.audio_decoder_plugin then
    { s with audio_decoder_plugin := false, tracks := s.tracks.reset, audio_type := 0 }
  else s

/-- `find out which audio type to decode`. It is `none` for an access outside of the map. -/
def chooseType (s : AudioLoop) (type : BitVec 32) : Option (BitVec 32) :=
  if s.audio_channel_user > -2 then
    if s.audio_channel_user = -1 then
      if s.audio_channel_auto ≥ 0 then
        if ((type &&& 0xFF#32).toNat : ℤ) = s.audio_channel_auto then some type else some noType
      else s.tracks.map[0]?
    else if s.audio_channel_user ≤ s.tracks.entries then s.tracks.map[s.audio_channel_user.toNat]?
    else some noType
  else some 0

/-- `close old decoder of audio type has changed`, and the decoding; `opened` is what `get_audio_decoder`
gives. -/
def decode (s : AudioLoop) (type : BitVec 32) (opened : Bool) : AudioLoop :=
  let streamtype := type >>> 16 &&& 0xFF#32
  let s :=
    if type ≠ s.buftype_unknown ∧ (s.audio_decoder_streamtype ≠ streamtype ∨ s.audio_decoder_plugin = false) then
      { s with audio_decoder_streamtype := streamtype, audio_decoder_plugin := opened, audio_handled := opened }
    else s
  let s := if type ≠ s.audio_type ∧ s.audio_decoder_plugin = true then { s with audio_type := type } else s
  if type ≠ s.buftype_unknown ∧ s.audio_handled = false then
    { s with buftype_unknown := type, audio_decoder_plugin := false }
  else s

/-- A buffer with audio data: the map is updated, and the buffer is decoded if it is of the chosen type. The
chosen type is given back if it has come to the choice. -/
def audioBuffer (s : AudioLoop) (type : BitVec 32) (opened : Bool) : Option (AudioLoop × Option (BitVec 32)) :=
  (s.tracks.update type).bind fun r =>
    let s := { s with tracks := r.1 }
    if r.2 then
      (s.chooseType type).map fun audio_type =>
        (if s.audio_channel_user > -2 ∧ type = audio_type then s.decode type opened else s, some audio_type)
    else some (s, none)

/-- A round of `audio_decoder_loop`. -/
def round (s : AudioLoop) (type decoder_info0 : BitVec 32) (opened : Bool) :
    Option (AudioLoop × Option (BitVec 32)) :=
  if type = bufControlStart then some ({ s.close with buftype_unknown := 0 }, none)
  else if type = bufControlEnd then some ({ s with audio_channel_auto := -1 }, none)
  else if type = bufControlQuit then some ({ s.close with running := false }, none)
  else if type = bufControlAudioChannel then
    some ({ s with audio_channel_auto := (decoder_info0 &&& 0xff#32).toNat }, none)
  else if type ∈ otherAudioControls then some (s, none)
  else if s.ignore_audio then some (s, none)
  else if type &&& 0xFF000000#32 = bufAudioBase then s.audioBuffer type opened
  else some (if type ≠ s.buftype_unknown then { s with buftype_unknown := type } else s, none)

end AudioLoop

/-- What happens to the audio loop: a buffer comes, or the frontend sets the channel or the stream info. -/
inductive AudioAction where
  | buffer (type decoder_info0 : BitVec 32) (opened : Bool)
  | setChannel (value : ℤ)
  | setIgnore (value : Bool)

/-- One action, with the type that has been chosen. -/
def audioAct (s : AudioLoop) : AudioAction → Option (AudioLoop × Option (BitVec 32))
  | .buffer type decoder_info0 opened =>
    if s.running then s.round type decoder_info0 opened else some (s, none)
  | .setChannel value => some ({ s with audio_channel_user := if value < -2 then -2 else value }, none)
  | .setIgnore value => some ({ s with ignore_audio := value }, none)

/-- The state after an action. -/
def audioStep (s : AudioLoop) (a : AudioAction) : Option AudioLoop := (audioAct s a).map Prod.fst

/-- The map is valid, and the type that has been chosen is none or a registered one. -/
def AudioChosen (s : AudioLoop) (a : AudioAction) : Prop :=
  ∃ t chosen, audioAct s a = some (t, chosen) ∧ t.tracks.Valid ∧
    ∀ audio_type, chosen = some audio_type →
      audio_type = 0 ∨ audio_type = noType ∨ audio_type ∈ t.tracks.registered

/-- A buffer comes to the choice of a type. -/
def AudioLoop.Chooses (s : AudioLoop) (type : BitVec 32) : Prop :=
  s.running = true ∧ s.ignore_audio = false ∧ type &&& 0xFF000000#32 = bufAudioBase ∧
    (type ∈ s.tracks.registered ∨ s.tracks.entries < 50)

/-- The channel that the user has set is not the one behind the last track, when a buffer comes to the choice
and has been registered. -/
def NotBehind (s : AudioLoop) : AudioAction → Prop
  | .buffer type _ _ => s.Chooses type →
      s.audio_channel_user ≠ (s.tracks.entries + if type ∈ s.tracks.registered then 0 else 1 : ℕ)
  | .setChannel _ | .setIgnore _ => True

/-! ## Subtitles -/

/-- The fields of a stream that the video loop uses for subtitles, and its `running`. -/
structure SpuLoop where
  tracks : TrackMap
  spu_channel_user : ℤ
  spu_channel_auto : ℤ
  spu_channel : ℤ
  spu_decoder_plugin : Bool
  spu_decoder_streamtype : BitVec 32
  ignore_spu : Bool
  running : Bool

namespace SpuLoop

/-- As a stream is set up. -/
def start : SpuLoop := ⟨.start, -1, -1, -1, false, 0xFFFFFFFF#32, false, true⟩

/-- The plugin is closed, and the map is reset with it. -/
def close (s : SpuLoop) : SpuLoop :=
  if s.spu_decoder_plugin then { s with spu_decoder_plugin := false, tracks := s.tracks.reset } else s

/-- `update_spu_decoder`; `opened` is what `get_spu_decoder` gives. -/
def updateDecoder (s : SpuLoop) (type : BitVec 32) (opened : Bool) : SpuLoop :=
  let streamtype := type >>> 16 &&& 0xFF#32
  if s.spu_decoder_streamtype ≠ streamtype ∨ s.spu_decoder_plugin = false then
    { s with spu_decoder_streamtype := streamtype, spu_decoder_plugin := opened }
  else s

/-- The registered type that the user has chosen, if there is one. It is `none` for an access outside of the
map. -/
def chooseType (s : SpuLoop) : Option (Option (BitVec 32)) :=
  if 0 ≤ s.spu_channel_user ∧ s.spu_channel_user < s.tracks.entries then
    (s.tracks.map[s.spu_channel_user.toNat]?).map some
  else some none

/-- The channel of the chosen type, or the automatic one. -/
def setChannel (s : SpuLoop) (chosen : Option (BitVec 32)) : SpuLoop :=
  if s.spu_channel_user ≥ 0 then
    { s with spu_channel := (chosen.map fun type => ((type &&& 0xFF#32).toNat : ℤ)).getD s.spu_channel_auto }
  else s

/-- A buffer with subtitles, with the type that the user has chosen. -/
def spuBuffer (s : SpuLoop) (type : BitVec 32) (opened : Bool) : Option (SpuLoop × Option (BitVec 32)) :=
  let s := s.updateDecoder type opened
  (s.tracks.update type).bind fun r =>
    let s := { s with tracks := r.1 }
    if r.2 then s.chooseType.map fun chosen => (s.setChannel chosen, chosen) else some (s, none)

/-- A round of `video_decoder_loop`. -/
def round (s : SpuLoop) (type decoder_info0 : BitVec 32) (opened : Bool) :
    Option (SpuLoop × Option (BitVec 32)) :=
  let kind := type &&& 0xFFFF0000#32
  if kind = bufControlStart then some (s.close, none)
  else if kind = bufControlSpuChannel then
    let s := { s with spu_channel_auto := decoder_info0.toInt }
    some (if s.spu_channel_user = -1 then { s with spu_channel := s.spu_channel_auto } else s, none)
  else if kind = bufControlQuit then some ({ s.close with running := false }, none)
  else if type &&& 0xFF000000#32 = bufSpuBase then
    if s.ignore_spu then some (s, none) else s.spuBuffer type opened
  -- the other control buffers, and video
  else some (s, none)

/-- `xine_select_spu_channel`. -/
def selectSpuChannel (s : SpuLoop) (channel : ℤ) : SpuLoop :=
  let user := if channel ≥ -2 then channel else -2
  { s with
    spu_channel_user := user
    spu_channel := if user = -2 then -1 else if user = -1 then s.spu_channel_auto else user }

end SpuLoop

/-- What happens to the video loop. -/
inductive SpuAction where
  | buffer (type decoder_info0 : BitVec 32) (opened : Bool)
  | selectChannel (channel : ℤ)
  | setIgnore (value : Bool)

/-- One action, with the type that the user has chosen. -/
def spuAct (s : SpuLoop) : SpuAction → Option (SpuLoop × Option (BitVec 32))
  | .buffer type decoder_info0 opened =>
    if s.running then s.round type decoder_info0 opened else some (s, none)
  | .selectChannel channel => some (s.selectSpuChannel channel, none)
  | .setIgnore value => some ({ s with ignore_spu := value }, none)

/-- The state after an action. -/
def spuStep (s : SpuLoop) (a : SpuAction) : Option SpuLoop := (spuAct s a).map Prod.fst

/-- The map is valid, and the type that has been chosen is a registered one if there is one. -/
def SpuChosen (s : SpuLoop) (a : SpuAction) : Prop :=
  ∃ t chosen, spuAct s a = some (t, chosen) ∧ t.tracks.Valid ∧
    ∀ type, chosen = some type → type ∈ t.tracks.registered

/-! ## What is chosen -/

open Runs

section Audio

variable {s : AudioLoop} {type : BitVec 32}

theorem AudioLoop.valid_close (h : s.tracks.Valid) : s.close.tracks.Valid := by
  unfold AudioLoop.close
  split_ifs
  · exact h.reset
  · exact h

theorem AudioLoop.decode_tracks (opened : Bool) : (s.decode type opened).tracks = s.tracks := by
  unfold AudioLoop.decode
  simp only
  split_ifs <;> rfl

theorem AudioLoop.chooseType_spec (h : s.tracks.Valid) (hmem : type ∈ s.tracks.registered)
    (hchannel : s.audio_channel_user ≠ s.tracks.entries) :
    ∃ audio_type, s.chooseType type = some audio_type ∧
      (audio_type = 0 ∨ audio_type = noType ∨ audio_type ∈ s.tracks.registered) := by
  have hpos : 0 < s.tracks.entries := by
    rw [← h.length_registered]
    exact List.length_pos_of_mem hmem
  have hslot : ∀ i < s.tracks.entries, ∃ t, s.tracks.map[i]? = some t ∧ t ∈ s.tracks.registered := by
    intro i hi
    have hlt : i < s.tracks.map.length := by
      have hle := h.entries_le
      rw [h.length_eq]
      omega
    exact ⟨_, List.getElem?_eq_getElem hlt, TrackMap.mem_registered hi (List.getElem?_eq_getElem hlt)⟩
  unfold AudioLoop.chooseType
  split_ifs with huser hauto hset hsame hle
  · exact ⟨type, rfl, Or.inr (Or.inr hmem)⟩
  · exact ⟨noType, rfl, Or.inr (Or.inl rfl)⟩
  · obtain ⟨t, ht, hregistered⟩ := hslot 0 hpos
    exact ⟨t, ht, Or.inr (Or.inr hregistered)⟩
  · -- the slot of the channel is in use
    obtain ⟨t, ht, hregistered⟩ := hslot s.audio_channel_user.toNat (by omega)
    exact ⟨t, ht, Or.inr (Or.inr hregistered)⟩
  · exact ⟨noType, rfl, Or.inr (Or.inl rfl)⟩
  · exact ⟨0, rfl, Or.inl rfl⟩

theorem AudioLoop.audioBuffer_spec (h : s.tracks.Valid) (opened : Bool)
    (hchannel : (type ∈ s.tracks.registered ∨ s.tracks.entries < 50) →
      s.audio_channel_user ≠ (s.tracks.entries + if type ∈ s.tracks.registered then 0 else 1 : ℕ)) :
    ∃ t chosen, s.audioBuffer type opened = some (t, chosen) ∧ t.tracks.Valid ∧
      ∀ audio_type, chosen = some audio_type →
        audio_type = 0 ∨ audio_type = noType ∨ audio_type ∈ t.tracks.registered := by
  obtain ⟨m, goes_on, hupdate, hm⟩ := h.update type
  unfold AudioLoop.audioBuffer
  rw [hupdate, Option.bind_some]
  cases hgo : goes_on with
  | false => exact ⟨{ s with tracks := m }, none, rfl, hm.valid, fun _ hnone => absurd hnone.symm (Option.some_ne_none _)⟩
  | true =>
    have hbehind := hchannel (hm.goes_on_iff.1 hgo)
    rw [← hm.entries_eq hgo] at hbehind
    obtain ⟨audio_type, htype, hchosen⟩ :=
      @AudioLoop.chooseType_spec { s with tracks := m } type hm.valid (hm.mem hgo) hbehind
    simp only [if_true, htype, Option.map_some]
    refine ⟨_, some audio_type, rfl, ?_, ?_⟩
    · split_ifs
      · rw [AudioLoop.decode_tracks]
        exact hm.valid
      · exact hm.valid
    · rintro _ ⟨⟩
      split_ifs
      · rw [AudioLoop.decode_tracks]
        exact hchosen
      · exact hchosen

/-- A round ends before the choice with a map that is still valid, or its buffer comes to the choice. -/
def AudioLoop.Ends (s : AudioLoop) (type : BitVec 32) (opened : Bool)
    (r : Option (AudioLoop × Option (BitVec 32))) : Prop :=
  (∃ t, r = some (t, none) ∧ t.tracks.Valid) ∨
    s.ignore_audio = false ∧ type &&& 0xFF000000#32 = bufAudioBase ∧ r = s.audioBuffer type opened

theorem AudioLoop.ends_ite {p : Prop} [Decidable p] {opened : Bool} {t : AudioLoop}
    {r : Option (AudioLoop × Option (BitVec 32))} (ht : t.tracks.Valid) (hr : ¬p → s.Ends type opened r) :
    s.Ends type opened (if p then some (t, none) else r) := by
  by_cases h : p
  · rw [if_pos h]
    exact Or.inl ⟨t, rfl, ht⟩
  · rw [if_neg h]
    exact hr h

theorem AudioLoop.round_ends (h : s.tracks.Valid) (decoder_info0 : BitVec 32) (opened : Bool) :
    s.Ends type opened (s.round type decoder_info0 opened) := by
  have hclose := AudioLoop.valid_close h
  unfold AudioLoop.round
  refine AudioLoop.ends_ite hclose fun _ => AudioLoop.ends_ite h fun _ => AudioLoop.ends_ite hclose fun _ =>
    AudioLoop.ends_ite h fun _ => AudioLoop.ends_ite h fun _ => AudioLoop.ends_ite h fun hignore => ?_
  by_cases hbase : type &&& 0xFF000000#32 = bufAudioBase
  · rw [if_pos hbase]
    exact Or.inr ⟨Bool.eq_false_iff.2 hignore, hbase, rfl⟩
  · rw [if_neg hbase]
    refine Or.inl ⟨_, rfl, ?_⟩
    split_ifs
    · exact h
    · exact h

theorem audioAct_cases (h : s.tracks.Valid) (a : AudioAction) :
    (∃ t, audioAct s a = some (t, none) ∧ t.tracks.Valid) ∨
      ∃ type decoder_info0 opened, a = .buffer type decoder_info0 opened ∧ s.running = true ∧
        s.ignore_audio = false ∧ type &&& 0xFF000000#32 = bufAudioBase ∧
        audioAct s a = s.audioBuffer type opened := by
  cases a with
  | setChannel value => exact Or.inl ⟨_, rfl, h⟩
  | setIgnore value => exact Or.inl ⟨_, rfl, h⟩
  | buffer type decoder_info0 opened =>
    rw [audioAct]
    by_cases hrunning : s.running = true
    · rw [if_pos hrunning]
      exact (AudioLoop.round_ends h decoder_info0 opened).imp_right fun ⟨hignore, hbase, hround⟩ =>
        ⟨type, decoder_info0, opened, rfl, hrunning, hignore, hbase, hround⟩
    · rw [if_neg hrunning]
      exact Or.inl ⟨_, rfl, h⟩

theorem audioAct_spec (h : s.tracks.Valid) {a : AudioAction} (hok : NotBehind s a) : AudioChosen s a := by
  unfold AudioChosen
  rcases audioAct_cases h a with ⟨t, ht, hvalid⟩ | ⟨type, _, opened, rfl, hrunning, hignore, hbase, hact⟩
  · exact ⟨t, none, ht, hvalid, fun _ hsome => absurd hsome.symm (Option.some_ne_none _)⟩
  · rw [hact]
    exact AudioLoop.audioBuffer_spec h opened fun hgo => hok ⟨hrunning, hignore, hbase, hgo⟩

theorem audioStep_valid {t : AudioLoop} {a : AudioAction} (h : s.tracks.Valid) (hstep : audioStep s a = some t) :
    t.tracks.Valid := by
  obtain ⟨⟨t, chosen⟩, hact, rfl⟩ := Option.map_eq_some_iff.1 hstep
  rcases audioAct_cases h a with ⟨u, hu, hvalid⟩ | ⟨type, _, opened, rfl, -, -, -, heq⟩
  · obtain ⟨rfl, -⟩ := Prod.mk.inj (Option.some.inj (hu.symm.trans hact))
    exact hvalid
  · obtain ⟨m, goes_on, hupdate, hm⟩ := h.update type
    rw [heq] at hact
    unfold AudioLoop.audioBuffer at hact
    rw [hupdate, Option.bind_some] at hact
    simp only at hact
    split_ifs at hact with hgo
    · obtain ⟨audio_type, -, heq⟩ := Option.map_eq_some_iff.1 hact
      obtain ⟨rfl, -⟩ := Prod.mk.inj heq
      split_ifs
      · rw [AudioLoop.decode_tracks]
        exact hm.valid
      · exact hm.valid
    · obtain ⟨rfl, -⟩ := Prod.mk.inj (Option.some.inj hact)
      exact hm.valid

end Audio

section Spu

variable {s : SpuLoop} {type : BitVec 32}

theorem SpuLoop.valid_close (h : s.tracks.Valid) : s.close.tracks.Valid := by
  unfold SpuLoop.close
  split_ifs
  · exact h.reset
  · exact h

theorem SpuLoop.updateDecoder_tracks (opened : Bool) : (s.updateDecoder type opened).tracks = s.tracks := by
  unfold SpuLoop.updateDecoder
  simp only
  split_ifs <;> rfl

theorem SpuLoop.setChannel_tracks (chosen : Option (BitVec 32)) : (s.setChannel chosen).tracks = s.tracks := by
  unfold SpuLoop.setChannel
  split_ifs <;> rfl

theorem SpuLoop.chooseType_spec (h : s.tracks.Valid) :
    ∃ chosen, s.chooseType = some chosen ∧ ∀ type, chosen = some type → type ∈ s.tracks.registered := by
  unfold SpuLoop.chooseType
  split_ifs with huser
  · have hlt : s.spu_channel_user.toNat < s.tracks.map.length := by
      have hle := h.entries_le
      rw [h.length_eq]
      omega
    refine ⟨some _, by rw [List.getElem?_eq_getElem hlt, Option.map_some], ?_⟩
    rintro _ ⟨⟩
    exact TrackMap.mem_registered (by omega) (List.getElem?_eq_getElem hlt)
  · exact ⟨none, rfl, fun _ hsome => absurd hsome.symm (Option.some_ne_none _)⟩

theorem SpuLoop.spuBuffer_spec (h : s.tracks.Valid) (opened : Bool) :
    ∃ t chosen, s.spuBuffer type opened = some (t, chosen) ∧ t.tracks.Valid ∧
      ∀ type, chosen = some type → type ∈ t.tracks.registered := by
  have hvalid : (s.updateDecoder type opened).tracks.Valid := by
    rw [SpuLoop.updateDecoder_tracks]
    exact h
  obtain ⟨m, goes_on, hupdate, hm⟩ := hvalid.update type
  unfold SpuLoop.spuBuffer
  simp only [hupdate, Option.bind_some]
  cases goes_on with
  | false =>
    exact ⟨{ s.updateDecoder type opened with tracks := m }, none, rfl, hm.valid,
      fun _ hnone => absurd hnone.symm (Option.some_ne_none _)⟩
  | true =>
    obtain ⟨chosen, hchosen, hmem⟩ :=
      @SpuLoop.chooseType_spec { s.updateDecoder type opened with tracks := m } hm.valid
    simp only [if_true, hchosen, Option.map_some]
    refine ⟨_, chosen, rfl, ?_, ?_⟩
    · rw [SpuLoop.setChannel_tracks]
      exact hm.valid
    · rw [SpuLoop.setChannel_tracks]
      exact hmem

theorem spuAct_spec (h : s.tracks.Valid) (a : SpuAction) : SpuChosen s a := by
  have hnone : ∀ t : SpuLoop, t.tracks.Valid → ∃ t' chosen, some (t, (none : Option (BitVec 32))) =
      some (t', chosen) ∧ t'.tracks.Valid ∧ ∀ type, chosen = some type → type ∈ t'.tracks.registered :=
    fun t ht => ⟨t, none, rfl, ht, fun _ hsome => absurd hsome.symm (Option.some_ne_none _)⟩
  unfold SpuChosen
  cases a with
  | selectChannel channel => exact hnone _ h
  | setIgnore value => exact hnone _ h
  | buffer type decoder_info0 opened =>
    rw [spuAct]
    by_cases hrunning : s.running = true
    · rw [if_pos hrunning]
      unfold SpuLoop.round
      simp only
      split_ifs with hstart hsuggest huser hquit hbase hignore
      · exact hnone _ (SpuLoop.valid_close h)
      · exact hnone _ h
      · exact hnone _ h
      · exact hnone _ (SpuLoop.valid_close h)
      · exact hnone _ h
      · exact SpuLoop.spuBuffer_spec h opened
      · exact hnone _ h
    · rw [if_neg hrunning]
      exact hnone _ h

end Spu

/-- The audio map is valid in every state of every run, and as long as the channel that the user has set is not
the one behind the last track, each buffer makes the loop choose no type or a registered one. The spu map is
valid and the type that the user has chosen a registered one, whatever the channel is. -/
theorem tracks_run (actions : List AudioAction) :
    (∀ s, run audioStep AudioLoop.start actions = some s → s.tracks.Valid) ∧
    (Guarded audioStep NotBehind AudioLoop.start actions → ∀ before a after,
      actions = before ++ a :: after → ∃ s, run audioStep AudioLoop.start before = some s ∧ AudioChosen s a) ∧
    ∀ before a, ∃ s, run spuStep SpuLoop.start before = some s ∧ SpuChosen s a := by
  refine ⟨fun s hrun => ?_, ?_, fun before a => ?_⟩
  · exact run_invariant (fun s a t => audioStep_valid) TrackMap.valid_start hrun
  · rintro hok before a after rfl
    refine @guarded_calls _ _ _ NotBehind AudioChosen (fun s : AudioLoop => s.tracks.Valid)
      (fun s a h hbehind => ?_) (fun s a h hbehind => audioAct_spec h hbehind) _ _ _ _ TrackMap.valid_start hok
    obtain ⟨t, chosen, hact, hvalid, -⟩ := audioAct_spec h hbehind
    exact ⟨t, by rw [audioStep, hact, Option.map_some], hvalid⟩
  · refine @guarded_calls _ _ _ (fun _ _ => True) _ (fun s : SpuLoop => s.tracks.Valid) (fun s a h _ => ?_)
      (fun s a h _ => spuAct_spec h a) _ before a [] TrackMap.valid_start
      (guarded_of_forall fun _ _ => trivial)
    obtain ⟨t, chosen, hact, hvalid, -⟩ := spuAct_spec h a
    exact ⟨t, by rw [spuStep, hact, Option.map_some], hvalid⟩

/-- Two tracks, of which the user has chosen the second one. -/
theorem tracks_run_second :
    ∃ s, run audioStep AudioLoop.start
        [.buffer 0x03020000#32 0 true, .buffer 0x03010000#32 0 true, .setChannel 1] = some s ∧
      AudioChosen s (.buffer 0x03020000#32 0 true) := by
  refine (tracks_run [.buffer 0x03020000#32 0 true, .buffer 0x03010000#32 0 true, .setChannel 1,
    .buffer 0x03020000#32 0 true]).2.1 ?_ _ _ [] rfl
  -- the channel is none of the numbers of tracks, one and two
  refine ⟨fun _ => by decide, fun t ht => ?_⟩
  cases ht
  refine ⟨fun _ => by decide, fun t ht => ?_⟩
  cases ht
  refine ⟨trivial, fun t ht => ?_⟩
  cases ht
  exact ⟨fun _ => by decide, fun t ht => trivial⟩

/-- After a new start there is one track, and the user's channel is the one behind it. Its slot holds a type of
the tracks before, which is chosen. -/
theorem audioLoop_chooses_unregistered :
    ∃ s t, run audioStep AudioLoop.start [.buffer 0x03010000#32 0 true, .buffer 0x03020000#32 0 true,
        .buffer bufControlStart 0 false, .setChannel 1] = some s ∧
      audioAct s (.buffer 0x03010000#32 0 true) = some (t, some 0x03020000#32) ∧
      t.tracks.registered = [0x03010000#32] ∧ ¬AudioChosen s (.buffer 0x03010000#32 0 true) := by
  refine ⟨_, _, rfl, rfl, rfl, ?_⟩
  rintro ⟨t, chosen, hact, -, hchosen⟩
  obtain ⟨rfl, rfl⟩ := Prod.mk.inj (Option.some.inj hact)
  exact absurd (hchosen _ rfl) (by decide)

end Xine.Tracks
