import Xine.Library.Runs
import Xine.Avi.Index

/-!
# The index grows with the file

A run takes the rounds of any number of calls of `idx_grow`. A call begins at the offset of the next tag and may
end before any of its rounds, as its stopper says; between calls the file grows, and its position changes. The
index of a stream is then a prefix of the list of its chunks, as long as each round that enters a chunk finds the
two offsets of the loop in step, and the chunks before it in the index.
-/

namespace Xine.Avi

open Runs

/-- The position to go back to, and the offset of the current tag, in a call of `idx_grow`. -/
structure Call where
  savepos : ℤ
  curtagoffset : ℤ

/-- The demuxer, and the call that goes on. -/
structure World where
  demux : DemuxAvi
  call : Option Call

/-- What can happen: a call begins, goes through a round or ends, the file is written up to some length
at least, or the position of the input is set. -/
inductive Action
  | enter | round | leave | grow (len : ℕ) | seek (offset : ℕ)

/-- The end of a call. -/
def World.leave (w : World) (savepos : ℤ) : World :=
  ⟨{ w.demux with input := (w.demux.input.seek savepos).2 }, none⟩

/-- The steps, for a file that is to have the bytes `file`. -/
def step (file : List Byte) (w : World) : Action → Option World
  | .enter =>
    match w.call with
    | some _ => none
    | none =>
      some ⟨{ w.demux with input := (w.demux.input.seek w.demux.nexttagoffset).2 },
        some ⟨w.demux.input.pos, w.demux.nexttagoffset⟩⟩
  | .round =>
    match w.call with
    | none => none
    | some call =>
      match idxGrowRound w.demux call.curtagoffset with
      | (demux, some curtagoffset) => some ⟨demux, some { call with curtagoffset := curtagoffset }⟩
      | (demux, none) => some (World.leave ⟨demux, none⟩ call.savepos)
  | .leave =>
    match w.call with
    | none => none
    | some call => some (w.leave call.savepos)
  | .grow len =>
    if w.call = none ∧ w.demux.input.src.length ≤ len then
      some { w with demux := { w.demux with input := { w.demux.input with src := file.take len } } }
    else
      none
  | .seek offset =>
    if w.call = none then
      some { w with demux := { w.demux with input := (w.demux.input.seek offset).2 } }
    else
      none

/-- The indices before the first call: the next tag is the first behind the header of the file. -/
def World.start (offset : ℕ) (video_tag : StreamTag) (video_type : VideoType)
    (audio : List (StreamTag × Option ℕ)) : World where
  demux := {
    input := ⟨[], 0⟩
    nexttagoffset := offset
    video_tag := video_tag
    video_type := video_type
    vindex := []
    audio := audio.map fun a => ⟨a.1, a.2, 0, 0, []⟩ }
  call := none

/-! ## What the indices hold -/

/-- The chunks in the index of the video stream. -/
def DemuxAvi.video (d : DemuxAvi) : List (ℤ × ℤ) := d.vindex.map fun e => (e.pos, e.len)

/-- The chunks in the index of an audio stream. -/
def AviAudio.chunks (a : AviAudio) : List (ℤ × ℤ) := a.aindex.map fun e => (e.pos, e.len)

/-- The total of each entry is the sum of the lengths of those before it. -/
def AviAudio.Totals (a : AviAudio) : Prop :=
  ∀ before e after, a.aindex = before ++ e :: after →
    e.tot = (before.map AudioIndexEntry.len).sum

/-- Each index is a prefix of the list of the chunks of its stream, with the totals so far. -/
def Indexed (offset : ℕ) (items : List Item) (video_tag : StreamTag) (audio_tags : List StreamTag)
    (d : DemuxAvi) : Prop :=
  d.video <+: chunks video_tag offset items ∧
    List.Forall₂ (fun a audio_tag => a.chunks <+: chunks audio_tag offset items ∧ a.Totals)
      d.audio audio_tags

/-- The items before an offset, and the one at it. -/
def locate (at' : ℤ) : ℕ → List Item → Option (List Item × Item)
  | _, [] => none
  | offset, item :: items =>
    if at' = offset then some ([], item)
    else (locate at' (offset + item.bytes.length) items).map fun p => (item :: p.1, p.2)

/-- A round of a call enters a chunk of a stream at the offset of the tag, and behind the chunks of the
stream before it. -/
def InStep (tag : StreamTag) (w : World) (offset : ℕ) (before : List Item) (indexed : List (ℤ × ℤ)) :
    Prop :=
  w.call.map Call.curtagoffset = some w.demux.nexttagoffset ∧
    indexed.length = (chunks tag offset before).length

instance (tag : StreamTag) (w : World) (offset : ℕ) (before : List Item) (indexed : List (ℤ × ℤ)) :
    Decidable (InStep tag w offset before indexed) := by
  unfold InStep
  infer_instance

/-- The chunk at the next tag, when its head can be read, is shorter than `2^31` bytes, and for each
stream whose index takes it, the offsets are in step and no chunk before it has been left out. -/
def RegularChunk (offset : ℕ) (w : World) (before : List Item) (tag payload : List Byte) : Prop :=
  w.demux.nexttagoffset + 8 ≤ w.demux.input.src.length →
    payload.length < 2^31 ∧
    ((hasTag tag w.demux.video_tag → w.demux.nexttagoffset + 12 ≤ w.demux.input.src.length) →
      (hasTag tag w.demux.video_tag → InStep w.demux.video_tag w offset before w.demux.video) ∧
      ∀ a ∈ w.demux.audio, hasTag tag a.audio_tag → InStep a.audio_tag w offset before a.chunks)

instance (offset : ℕ) (w : World) (before : List Item) (tag payload : List Byte) :
    Decidable (RegularChunk offset w before tag payload) := by
  unfold RegularChunk
  infer_instance

/-- The condition on the steps: each round meets a regular chunk, or the header of a list. -/
def Regular (offset : ℕ) (items : List Item) (w : World) : Action → Prop
  | .round =>
    match locate w.demux.nexttagoffset offset items with
    | some (before, .chunk tag payload _) => RegularChunk offset w before tag payload
    | _ => True
  | _ => True

instance (offset : ℕ) (items : List Item) (w : World) : DecidablePred (Regular offset items w)
  | .round => by
    unfold Regular
    exact match locate w.demux.nexttagoffset offset items with
      | some (_, .chunk ..) => inferInstanceAs (Decidable (RegularChunk ..))
      | some (_, .header ..) => isTrue trivial
      | none => isTrue trivial
  | .enter => isTrue trivial
  | .leave => isTrue trivial
  | .grow _ => isTrue trivial
  | .seek _ => isTrue trivial

/-! ## The invariant -/

variable {file : List Byte} {items before after : List Item} {item : Item} {offset : ℕ} {w w' : World}
  {tag : StreamTag} {a : AviAudio} {t payload data : List Byte} {pad : Byte}

/-- An audio index holds chunks of the items so far, and its totals are right. -/
structure AviAudio.Good (offset : ℕ) (before : List Item) (a : AviAudio) : Prop where
  chunks_isPrefix : a.chunks <+: Avi.chunks a.audio_tag offset before
  totals : a.Totals
  audio_tot : a.audio_tot = (a.aindex.map AudioIndexEntry.len).sum

/-- The next tag is that behind the items so far, and the indices hold chunks of these. -/
structure DemuxAvi.Placed (offset : ℕ) (before : List Item) (d : DemuxAvi) : Prop where
  nexttagoffset : d.nexttagoffset = offset + sizeOf before
  video_isPrefix : d.video <+: chunks d.video_tag offset before
  audio : ∀ a ∈ d.audio, a.Good offset before

/-- The invariant of the regular runs. -/
structure Inv (file : List Byte) (offset : ℕ) (items : List Item) (w : World) : Prop where
  src_prefix : w.demux.input.src <+: file
  placed : ∃ before after, items = before ++ after ∧ w.demux.Placed offset before
  pos_eq : w.call ≠ none → w.demux.input.pos = w.demux.nexttagoffset

/-! ## One stream -/

theorem hasTag_append (ht : t.length = 4) (u : List Byte) : hasTag (t ++ u) tag = hasTag t tag := by
  unfold hasTag
  rw [List.getElem?_append_left (by omega), List.getElem?_append_left (by omega)]

theorem prefix_payload (t payload : List Byte) (pad : Byte) {l : List (ℤ × ℤ)} (h : l <+: chunks tag offset before)
    (hall : hasTag t tag → l.length = (chunks tag offset before).length) :
    (if hasTag t tag then l ++ [((offset : ℤ) + sizeOf before + 8, (payload.length : ℤ))] else l) <+:
      chunks tag offset (before ++ [.chunk t payload pad]) := by
  rw [chunks_append, chunks_singleton, Item.payload]
  split_ifs with htag
  · have hpos : ((offset + sizeOf before : ℕ) : ℤ) = offset + sizeOf before := Int.natCast_add _ _
    rw [hpos]
    exact ⟨[], by rw [h.eq_of_length (hall htag), List.append_nil]⟩
  · rw [List.append_nil]
    exact h

theorem prefix_skip {l : List (ℤ × ℤ)} (h : l <+: chunks tag offset before) (item : Item) :
    l <+: chunks tag offset (before ++ [item]) := h.trans (chunks_isPrefix tag offset before [item])

theorem AviAudio.Good.skip (h : a.Good offset before) (item : Item) :
    a.Good offset (before ++ [item]) := ⟨prefix_skip h.chunks_isPrefix item, h.totals, h.audio_tot⟩

theorem AviAudio.Good.grow {curtagoffset : ℤ} (h : a.Good offset before)
    (hdata : hasTag data a.audio_tag = hasTag t a.audio_tag)
    (hstep : hasTag t a.audio_tag → curtagoffset = offset + sizeOf before ∧
      a.chunks.length = (Avi.chunks a.audio_tag offset before).length) :
    (a.grow data curtagoffset payload.length).Good offset (before ++ [.chunk t payload pad]) := by
  have hpre := prefix_payload t payload pad h.chunks_isPrefix
    fun htag => (hstep htag).2
  unfold AviAudio.grow
  rw [hdata]
  split_ifs at hpre ⊢ with htag
  · obtain ⟨rfl, -⟩ := hstep htag
    refine ⟨?_, ?_, ?_⟩
    · unfold AviAudio.chunks at hpre ⊢
      rwa [List.map_append]
    · -- the entries before a new last entry are all old ones
      intro before' e after' heq
      rcases List.eq_nil_or_concat after' with rfl | ⟨after'', e', rfl⟩
      · obtain ⟨rfl, he⟩ := List.append_inj' heq rfl
        rw [← (List.cons.inj he).1]
        exact h.audio_tot
      · refine h.totals before' e after'' ?_
        rw [List.concat_eq_append, ← List.cons_append, ← List.append_assoc] at heq
        exact (List.append_inj' heq rfl).1
    · simp only [List.map_append, List.map_singleton, List.sum_append, List.sum_singleton, h.audio_tot]
  · exact ⟨hpre, h.totals, h.audio_tot⟩

/-! ## One round -/

theorem take_drop_of_isPrefix {src : List Byte} {n k : ℕ} (h : src <+: file)
    (hlen : ((src.drop n).take k).length = k) :
    (src.drop n).take k = (file.drop n).take k ∧ n + k ≤ src.length ∨ k = 0 := by
  obtain ⟨rest, rfl⟩ := h
  rw [List.length_take, List.length_drop] at hlen
  by_cases hk : k = 0
  · exact Or.inr hk
  · refine Or.inl ⟨?_, by omega⟩
    rw [List.drop_append_of_le_length (by omega), List.take_append_of_le_length]
    rw [List.length_drop]
    omega

theorem drop_file {head : List Byte} (before after : List Item) :
    (head ++ (before ++ after).flatMap Item.bytes).drop (head.length + sizeOf before) =
      after.flatMap Item.bytes := by
  rw [List.flatMap_append, ← List.append_assoc, ← length_flatMap_bytes, ← List.length_append,
    List.drop_left]

theorem Item.Formed.length_pos (h : item.Formed) : 0 < item.bytes.length := by
  cases item with
  | header tag size kind =>
    obtain ⟨htag, -, -, -⟩ := h
    rw [Item.bytes, List.length_append, htag]
    omega
  | chunk tag payload pad =>
    obtain ⟨htag, -, -⟩ := h
    rw [Item.bytes, List.length_append, htag]
    omega

theorem locate_append (hformed : ∀ i ∈ before, i.Formed) (offset : ℕ) (item : Item)
    (after : List Item) :
    locate (((offset + sizeOf before : ℕ)) : ℤ) offset (before ++ item :: after) = some (before, item) := by
  induction before generalizing offset with
  | nil => exact if_pos rfl
  | cons b before ih =>
    obtain ⟨hb, hformed⟩ := List.forall_mem_cons.1 hformed
    have hpos := hb.length_pos
    rw [List.cons_append, locate, sizeOf_cons, if_neg (by omega), ← Nat.add_assoc, ih hformed]
    rfl

/-- The first eight bytes of an item. -/
def Item.head : Item → List Byte
  | .header tag size _ => tag ++ size
  | .chunk tag payload _ => tag ++ le32 payload.length

theorem Item.Formed.take_eight (h : item.Formed) (rest : List Byte) :
    (item.bytes ++ rest).take 8 = item.head := by
  cases item with
  | header tag size kind =>
    obtain ⟨htag, -, hsize, -⟩ := h
    rw [Item.bytes, ← List.append_assoc, List.append_assoc, List.take_left' (by simp [htag, hsize])]
    rfl
  | chunk tag payload pad =>
    obtain ⟨htag, -, -⟩ := h
    rw [Item.bytes, ← List.append_assoc, List.append_assoc, List.take_left' (by simp [htag, length_le32])]
    rfl

theorem read_item {head src : List Byte} {n : ℕ} (hsrc : src <+: head ++ items.flatMap Item.bytes)
    (hformed : ∀ i ∈ items, i.Formed) (hitems : items = before ++ after)
    (hn : n = head.length + sizeOf before) (hlen : ((src.drop n).take 8).length = 8) :
    n + 8 ≤ src.length ∧
      ∃ item after', after = item :: after' ∧ item.Formed ∧ (src.drop n).take 8 = item.head := by
  obtain ⟨hread, hle⟩ := (take_drop_of_isPrefix hsrc hlen).resolve_right (by decide)
  refine ⟨hle, ?_⟩
  cases after with
  | nil =>
    -- behind the last item the file is at its end
    have hfile := hsrc.length_le
    rw [List.append_nil] at hitems
    rw [List.length_append, length_flatMap_bytes, hitems] at hfile
    omega
  | cons item after' =>
    have hitem : item.Formed := hformed item (by simp [hitems])
    refine ⟨item, after', rfl, hitem, ?_⟩
    rw [hread, hn, hitems, drop_file, List.flatMap_cons, hitem.take_eight]

theorem growVideo_spec {d d' : DemuxAvi} {curtagoffset n : ℤ}
    (h : d.growVideo data curtagoffset n = some d') :
    d'.input.src = d.input.src ∧ d'.nexttagoffset = d.nexttagoffset ∧ d'.video_tag = d.video_tag ∧
      d'.audio = d.audio ∧
      d'.video = (if hasTag data d.video_tag then d.video ++ [(curtagoffset + 8, n)] else d.video) ∧
      (hasTag data d.video_tag → ((d.input.src.drop d.input.pos.toNat).take 4).length = 4) := by
  unfold DemuxAvi.growVideo at h
  by_cases htag : hasTag data d.video_tag = true
  · rw [if_pos htag] at h
    rcases hread : d.input.read 4 with ⟨data2, input⟩
    have hsrc : input.src = d.input.src := (congrArg (fun r => r.2.src) hread).symm
    have hdata2 : data2 = (d.input.src.drop d.input.pos.toNat).take 4 := (congrArg Prod.fst hread).symm
    simp only [hread] at h
    split_ifs at h with hlen htype
    · cases h
      refine ⟨hsrc, rfl, rfl, rfl, ?_, fun _ => hdata2 ▸ not_not.1 hlen⟩
      unfold DemuxAvi.video
      rw [List.map_append, if_pos htag]
      rfl
    · cases h
      refine ⟨hsrc, rfl, rfl, rfl, ?_, fun _ => hdata2 ▸ not_not.1 hlen⟩
      unfold DemuxAvi.video
      rw [List.map_append, if_pos htag]
      rfl
  · rw [if_neg htag] at h
    cases h
    exact ⟨rfl, rfl, rfl, rfl, (if_neg htag).symm, fun hno => absurd hno htag⟩

theorem idxGrowRound_header {d : DemuxAvi} {cur : ℤ} {tag size kind : List Byte}
    (hformed : (Item.header tag size kind).Formed) (hpos : d.input.pos = d.nexttagoffset)
    (hnonneg : 0 ≤ d.nexttagoffset)
    (hread : (d.input.src.drop d.input.pos.toNat).take 8 = tag ++ size) :
    idxGrowRound d cur =
      ({ d with
        input := ⟨d.input.src, d.nexttagoffset + 12⟩
        nexttagoffset := d.nexttagoffset + 12 }, some cur) := by
  obtain ⟨htag, hlist, hsize, -⟩ := hformed
  unfold idxGrowRound
  have hlen : (tag ++ size).length = 8 := by rw [List.length_append, htag, hsize]
  have htake : (tag ++ size).take 4 = tag := List.take_left' htag
  simp only [Input.read, hread, hlen, htake, hlist, ne_eq, not_true_eq_false, if_false, if_true]
  unfold Input.seek
  have hoffset : d.input.pos + ((8 : ℕ) : ℤ) + 4 = d.nexttagoffset + 12 := by omega
  rw [hoffset, if_neg (by omega)]

theorem idxGrowRound_chunk {d : DemuxAvi} {cur : ℤ}
    (hformed : (Item.chunk t payload pad).Formed) (hsize : payload.length < 2^31)
    (hread : (d.input.src.drop d.input.pos.toNat).take 8 = t ++ le32 payload.length) :
    idxGrowRound d cur =
      let this : DemuxAvi := { d with
        input := ⟨d.input.src, d.input.pos + 8⟩
        nexttagoffset := d.nexttagoffset + (Item.chunk t payload pad).bytes.length }
      match this.growVideo (t ++ le32 payload.length) cur payload.length with
      | none => (this, none)
      | some this =>
        let this := { this with
          audio := this.audio.map fun audio : AviAudio =>
            audio.grow (t ++ le32 payload.length) cur payload.length }
        let (offset, input) := this.input.seek this.nexttagoffset
        ({ this with input := input }, if offset = this.nexttagoffset then some offset else none) := by
  obtain ⟨htag, hlist, -⟩ := hformed
  unfold idxGrowRound
  have hlen : (t ++ le32 payload.length).length = 8 := by rw [List.length_append, htag, length_le32]
  have htake : (t ++ le32 payload.length).take 4 = t := List.take_left' htag
  have hdrop : (t ++ le32 payload.length).drop 4 = le32 payload.length := List.drop_left' htag
  simp only [Input.read, hread, hlen, htake, hdrop, hlist, ne_eq, not_true_eq_false, if_false,
    str2ulong_le32 hsize, padEven_chunk t payload pad htag, Bool.false_eq_true]
  rfl

theorem DemuxAvi.Placed.skip {d d' : DemuxAvi} (h : d.Placed offset before) (item : Item)
    (hnext : d'.nexttagoffset = d.nexttagoffset + item.bytes.length)
    (htag : d'.video_tag = d.video_tag) (hvindex : d'.vindex = d.vindex) (haudio : d'.audio = d.audio) :
    d'.Placed offset (before ++ [item]) := by
  have hvideo : d'.video = d.video := by
    unfold DemuxAvi.video
    rw [hvindex]
  constructor
  · rw [hnext, h.nexttagoffset, sizeOf_append, sizeOf_singleton]
    omega
  · rw [hvideo, htag]
    exact prefix_skip h.video_isPrefix item
  · intro a ha
    rw [haudio] at ha
    exact (h.audio a ha).skip item

theorem DemuxAvi.Placed.take {d d' : DemuxAvi} {cur : ℤ} {input : Input}
    (h : d.Placed offset before) (ht : t.length = 4)
    (hgrow : DemuxAvi.growVideo { d with
        input := input
        nexttagoffset := d.nexttagoffset + (Item.chunk t payload pad).bytes.length }
      (t ++ le32 payload.length) cur payload.length = some d')
    (hvideo : hasTag t d.video_tag → cur = offset + sizeOf before ∧
      d.video.length = (chunks d.video_tag offset before).length)
    (haudio : ∀ a ∈ d.audio, hasTag t a.audio_tag → cur = offset + sizeOf before ∧
      a.chunks.length = (Avi.chunks a.audio_tag offset before).length) (input' : Input) :
    DemuxAvi.Placed offset (before ++ [.chunk t payload pad]) { d' with
      input := input'
      audio := d'.audio.map fun audio : AviAudio =>
        audio.grow (t ++ le32 payload.length) cur payload.length } := by
  obtain ⟨-, hnext, htag, haudio', hvideo', -⟩ := growVideo_spec hgrow
  dsimp only at hnext htag haudio' hvideo'
  rw [hasTag_append ht] at hvideo'
  constructor
  · dsimp only
    rw [hnext, h.nexttagoffset, sizeOf_append, sizeOf_singleton]
    omega
  · have hpre := prefix_payload t payload pad h.video_isPrefix
      fun hv => (hvideo hv).2
    change d'.video <+: chunks d'.video_tag _ _
    rw [htag, hvideo']
    split_ifs at hpre ⊢ with hv
    · rw [(hvideo hv).1]
      exact hpre
    · exact hpre
  · intro a ha
    obtain ⟨a', ha', rfl⟩ := List.mem_map.1 ha
    rw [haudio'] at ha'
    exact (h.audio a' ha').grow (hasTag_append ht _) (haudio a' ha')

theorem InStep.cur {call : Call} {l : List (ℤ × ℤ)} (h : InStep tag w offset before l)
    (hcall : w.call = some call) (hnext : w.demux.nexttagoffset = offset + sizeOf before) :
    call.curtagoffset = offset + sizeOf before ∧ l.length = (chunks tag offset before).length := by
  obtain ⟨hoffset, hall⟩ := h
  rw [hcall] at hoffset
  exact ⟨(Option.some.inj hoffset).trans hnext, hall⟩

theorem idxGrowRound_placed {head : List Byte} {call : Call} {d : DemuxAvi} {next : Option ℤ}
    (hformed : ∀ i ∈ items, i.Formed)
    (hinv : Inv (head ++ items.flatMap Item.bytes) head.length items w) (hcall : w.call = some call)
    (hreg : Regular head.length items w .round)
    (h : idxGrowRound w.demux call.curtagoffset = (d, next)) :
    d.input.src = w.demux.input.src ∧
      (∃ before after, items = before ++ after ∧ d.Placed head.length before) ∧
        (next ≠ none → d.input.pos = d.nexttagoffset) := by
  obtain ⟨before, after, hitems, hplaced⟩ := hinv.placed
  have hpos : w.demux.input.pos = w.demux.nexttagoffset := hinv.pos_eq (by rw [hcall]; exact Option.some_ne_none call)
  have hnext := hplaced.nexttagoffset
  have hnat : w.demux.input.pos.toNat = head.length + sizeOf before := by omega
  by_cases hlen : ((w.demux.input.src.drop w.demux.input.pos.toNat).take 8).length = 8
  · rw [hnat] at hlen
    obtain ⟨hle, item, after', rfl, hitem, hread⟩ :=
      read_item hinv.src_prefix hformed hitems rfl hlen
    rw [← hnat] at hread
    have hlocate : locate w.demux.nexttagoffset head.length items = some (before, item) := by
      rw [hitems, hnext, ← Int.natCast_add]
      exact locate_append (fun i hi => hformed i (by simp [hitems, hi])) _ _ _
    have hitems' : items = (before ++ [item]) ++ after' := by rw [hitems, List.append_assoc, List.singleton_append]
    unfold Regular at hreg
    simp only [hlocate] at hreg
    cases item with
    | header tag size kind =>
      rw [idxGrowRound_header hitem hpos (by omega) hread] at h
      obtain ⟨rfl, -⟩ := Prod.mk.inj h
      refine ⟨rfl, ⟨before ++ [.header tag size kind], after', hitems', ?_⟩, fun _ => rfl⟩
      refine hplaced.skip (.header tag size kind) ?_ rfl rfl rfl
      obtain ⟨htag, -, hsize, hkind⟩ := hitem
      simp only [Item.bytes, List.length_append, htag, hsize, hkind]
      rfl
    | chunk t payload pad =>
      obtain ⟨hsize, hstep⟩ := hreg (by omega)
      rw [idxGrowRound_chunk hitem hsize hread] at h
      have hlen4 := hitem.1
      dsimp only at h
      split at h
      · -- the first bytes of a frame cannot be read
        obtain ⟨rfl, rfl⟩ := Prod.mk.inj h
        refine ⟨rfl, ⟨before ++ [.chunk t payload pad], after', hitems', ?_⟩, fun hno => absurd rfl hno⟩
        exact hplaced.skip (.chunk t payload pad) rfl rfl rfl rfl
      · next d' hgrow =>
        obtain ⟨hsrc, hnext', -, -, -, hmore⟩ := growVideo_spec hgrow
        dsimp only at hsrc hnext' hmore
        rw [hasTag_append hlen4] at hmore
        have hframe : hasTag t w.demux.video_tag →
            w.demux.nexttagoffset + 12 ≤ w.demux.input.src.length := by
          intro hv
          have hlen12 := hmore hv
          rw [List.length_take, List.length_drop] at hlen12
          omega
        obtain ⟨hstepv, hstepa⟩ := hstep hframe
        have hnonneg : ¬d'.nexttagoffset < 0 := by omega
        unfold Input.seek at h
        rw [if_neg hnonneg] at h
        obtain ⟨rfl, -⟩ := Prod.mk.inj h
        refine ⟨hsrc, ⟨before ++ [.chunk t payload pad], after', hitems', ?_⟩, fun _ => rfl⟩
        exact hplaced.take hlen4 hgrow (fun hv => (hstepv hv).cur hcall hnext)
          (fun a ha hv => (hstepa a ha hv).cur hcall hnext) _
  · -- the file ends before the next tag does
    have hround : idxGrowRound w.demux call.curtagoffset =
        ({ w.demux with input := (w.demux.input.read 8).2 }, none) := if_pos hlen
    obtain ⟨rfl, rfl⟩ := Prod.mk.inj (hround.symm.trans h)
    refine ⟨rfl, ⟨before, after, hitems, ?_⟩, fun hno => absurd rfl hno⟩
    exact ⟨hplaced.nexttagoffset, hplaced.video_isPrefix, hplaced.audio⟩

/-! ## Runs -/

/-- The tags of the streams stay. -/
def DemuxAvi.tags (d : DemuxAvi) : StreamTag × List StreamTag :=
  (d.video_tag, d.audio.map AviAudio.audio_tag)

theorem AviAudio.grow_tag (a : AviAudio) (data : List Byte) (cur n : ℤ) :
    (a.grow data cur n).audio_tag = a.audio_tag := by
  unfold AviAudio.grow
  split_ifs
  · rfl
  · rfl

theorem idxGrowRound_tags (d : DemuxAvi) (cur : ℤ) : (idxGrowRound d cur).1.tags = d.tags := by
  unfold idxGrowRound
  dsimp only
  split_ifs
  · rfl
  · rfl
  · split
    · rfl
    · next d' hgrow =>
      obtain ⟨-, -, htag, haudio, -, -⟩ := growVideo_spec hgrow
      dsimp only at htag haudio
      unfold DemuxAvi.tags
      simp only [htag, haudio, List.map_map, Function.comp_def, AviAudio.grow_tag]

theorem seek_src (input : Input) (n : ℤ) : (input.seek n).2.src = input.src := by
  unfold Input.seek
  split_ifs
  · rfl
  · rfl

theorem step_cases {act : Action} (h : step file w act = some w') :
    (∃ input call, w' = ⟨{ w.demux with input := input }, call⟩ ∧
      (w.demux.input.src <+: file → input.src <+: file) ∧
        (call ≠ none → input = (w.demux.input.seek w.demux.nexttagoffset).2)) ∨
    (act = .round ∧ ∃ call d next, w.call = some call ∧
      idxGrowRound w.demux call.curtagoffset = (d, next) ∧
        w' = match next with
          | some cur => ⟨d, some { call with curtagoffset := cur }⟩
          | none => World.leave ⟨d, none⟩ call.savepos) := by
  have hseek (n : ℤ) (hsrc : w.demux.input.src <+: file) : (w.demux.input.seek n).2.src <+: file :=
    (seek_src _ _).symm ▸ hsrc
  cases act with
  | enter =>
    dsimp only [step] at h
    split at h
    · cases h
    · exact Or.inl ⟨_, _, (Option.some.inj h).symm, hseek _, fun _ => rfl⟩
  | round =>
    dsimp only [step] at h
    split at h
    · cases h
    · next call hcall =>
      rcases hround : idxGrowRound w.demux call.curtagoffset with ⟨d, next⟩
      rw [hround] at h
      refine Or.inr ⟨rfl, call, d, next, hcall, hround, ?_⟩
      cases next with
      | some cur => exact (Option.some.inj h).symm
      | none => exact (Option.some.inj h).symm
  | leave =>
    dsimp only [step] at h
    split at h
    · cases h
    · exact Or.inl ⟨_, _, (Option.some.inj h).symm, hseek _, fun hno => absurd rfl hno⟩
  | grow len =>
    dsimp only [step] at h
    split_ifs at h with hcall
    exact Or.inl ⟨_, _, (Option.some.inj h).symm, fun _ => List.take_prefix len _,
      fun hno => absurd hcall.1 hno⟩
  | seek pos =>
    dsimp only [step] at h
    split_ifs at h with hcall
    exact Or.inl ⟨_, _, (Option.some.inj h).symm, hseek _, fun hno => absurd hcall hno⟩

theorem step_tags {act : Action} (h : step file w act = some w') : w'.demux.tags = w.demux.tags := by
  obtain ⟨input, call, rfl, -, -⟩ | ⟨-, call, d, next, -, hround, rfl⟩ := step_cases h
  · rfl
  · have htags := idxGrowRound_tags w.demux call.curtagoffset
    rw [hround] at htags
    cases next with
    | some cur => exact htags
    | none => exact htags

theorem step_inv {head : List Byte} (hformed : ∀ i ∈ items, i.Formed) {act : Action}
    (hinv : Inv (head ++ items.flatMap Item.bytes) head.length items w)
    (hreg : Regular head.length items w act)
    (h : step (head ++ items.flatMap Item.bytes) w act = some w') :
    Inv (head ++ items.flatMap Item.bytes) head.length items w' := by
  obtain ⟨input, call, rfl, hsrc, hpos⟩ | ⟨rfl, call, d, next, hcall, hround, rfl⟩ := step_cases h
  · obtain ⟨before, after, hitems, hplaced⟩ := hinv.placed
    refine ⟨hsrc hinv.src_prefix, ⟨before, after, hitems, hplaced.nexttagoffset, hplaced.video_isPrefix,
      hplaced.audio⟩, fun hno => ?_⟩
    have hnext := hplaced.nexttagoffset
    dsimp only
    rw [hpos hno, Input.seek, if_neg (by omega)]
  · obtain ⟨hsrc, ⟨before, after, hitems, hplaced⟩, hpos⟩ :=
      idxGrowRound_placed hformed hinv hcall hreg hround
    cases next with
    | some cur =>
      exact ⟨hsrc ▸ hinv.src_prefix, ⟨before, after, hitems, hplaced⟩,
        fun _ => hpos (Option.some_ne_none cur)⟩
    | none =>
      refine ⟨?_, ⟨before, after, hitems, hplaced.nexttagoffset, hplaced.video_isPrefix,
        hplaced.audio⟩, fun hno => absurd rfl hno⟩
      unfold World.leave
      dsimp only
      rw [seek_src, hsrc]
      exact hinv.src_prefix

theorem start_inv (head : List Byte) (items : List Item) (video_tag : StreamTag)
    (video_type : VideoType) (audio : List (StreamTag × Option ℕ)) :
    Inv (head ++ items.flatMap Item.bytes) head.length items
      (World.start head.length video_tag video_type audio) := by
  refine ⟨List.nil_prefix, ⟨[], items, rfl, ?_⟩, fun hno => absurd rfl hno⟩
  refine ⟨(Int.add_zero _).symm, List.nil_prefix, ?_⟩
  intro a ha
  obtain ⟨s, -, rfl⟩ := List.mem_map.1 ha
  refine ⟨List.nil_prefix, ?_, rfl⟩
  intro before e after h
  exact absurd h.symm (List.append_ne_nil_of_right_ne_nil before (List.cons_ne_nil e after))

theorem Inv.indexed (h : Inv file offset items w) {video_tag : StreamTag}
    {audio_tags : List StreamTag} (htags : w.demux.tags = (video_tag, audio_tags)) :
    Indexed offset items video_tag audio_tags w.demux := by
  obtain ⟨before, after, rfl, hplaced⟩ := h.placed
  obtain ⟨rfl, rfl⟩ := Prod.mk.inj htags
  refine ⟨hplaced.video_isPrefix.trans (chunks_isPrefix _ _ _ _), ?_⟩
  rw [List.forall₂_map_right_iff, List.forall₂_same]
  intro a ha
  have hgood := hplaced.audio a ha
  exact ⟨hgood.chunks_isPrefix.trans (chunks_isPrefix _ _ _ _), hgood.totals⟩

theorem run_tags {acts : List Action} (h : run (step file) w acts = some w') :
    w'.demux.tags = w.demux.tags :=
  run_invariant (fun s _ _ (hs : s.demux.tags = w.demux.tags) hstep => (step_tags hstep).trans hs) rfl h

/-- In a regular run each index stays a prefix of the list of the chunks of its stream. -/
theorem idxGrow_indexed (head : List Byte) (items : List Item) (hformed : ∀ i ∈ items, i.Formed)
    (video_tag : StreamTag) (video_type : VideoType) (audio : List (StreamTag × Option ℕ))
    (acts : List Action)
    (hreg : Guarded (step (head ++ items.flatMap Item.bytes)) (Regular head.length items)
      (World.start head.length video_tag video_type audio) acts)
    (h : run (step (head ++ items.flatMap Item.bytes))
      (World.start head.length video_tag video_type audio) acts = some w) :
    Indexed head.length items video_tag (audio.map Prod.fst) w.demux := by
  have hinv := guarded_invariant (fun _ _ _ => step_inv hformed)
    (start_inv head items video_tag video_type audio) hreg h
  refine hinv.indexed ((run_tags h).trans ?_)
  unfold World.start DemuxAvi.tags
  rw [List.map_map]
  rfl

/-- A frame, a chunk of sound, and a group with a further frame. -/
def film : List Item := [
  .chunk [48, 48, 100, 99] [1, 2, 3, 4, 5] 0,
  .chunk [48, 49, 119, 98] [6, 7] 0,
  .header [76, 73, 83, 84] [12, 0, 0, 0] [114, 101, 99, 32],
  .chunk [48, 48, 100, 99] [8, 9, 10, 11] 0]

/-- The first call ends where the file has ended so far, the second behind the head of the group. -/
theorem idxGrow_indexed_film :
    ∃ w, run (step ([0, 0] ++ film.flatMap Item.bytes))
        (World.start 2 (48, 48) .mpeg4 [((48, 49), some 4)])
        [.grow 20, .enter, .round, .round, .grow 80, .enter, .round, .round, .leave, .seek 5,
          .enter, .round, .leave] = some w ∧
      w.demux.video = [(10, 5), (46, 4)] ∧ Indexed 2 film (48, 48) [(48, 49)] w.demux := by
  have hvideo : (run (step ([0, 0] ++ film.flatMap Item.bytes))
      (World.start 2 (48, 48) .mpeg4 [((48, 49), some 4)])
      [.grow 20, .enter, .round, .round, .grow 80, .enter, .round, .round, .leave, .seek 5,
        .enter, .round, .leave]).map (fun w => w.demux.video) = some [(10, 5), (46, 4)] := by decide
  obtain ⟨w, hw, hvideo⟩ := Option.map_eq_some_iff.1 hvideo
  refine ⟨w, hw, hvideo, ?_⟩
  exact idxGrow_indexed [0, 0] film (by decide) (48, 48) .mpeg4 [((48, 49), some 4)] [.grow 20, .enter,
    .round, .round, .grow 80, .enter, .round, .round, .leave, .seek 5, .enter, .round, .leave]
    (by decide) hw

/-- Behind the head of the group the same call goes on, and enters the frame twelve bytes early. -/
theorem idxGrow_not_indexed :
    (∀ i ∈ film, i.Formed) ∧ ∃ w, run (step ([0, 0] ++ film.flatMap Item.bytes))
        (World.start 2 (48, 48) .mpeg4 [((48, 49), some 4)])
        [.grow 80, .enter, .round, .round, .round, .round] = some w ∧
      w.demux.video = [(10, 5), (34, 4)] ∧ ¬Indexed 2 film (48, 48) [(48, 49)] w.demux := by
  have hvideo : (run (step ([0, 0] ++ film.flatMap Item.bytes))
      (World.start 2 (48, 48) .mpeg4 [((48, 49), some 4)])
      [.grow 80, .enter, .round, .round, .round, .round]).map (fun w => w.demux.video) =
        some [(10, 5), (34, 4)] := by decide
  obtain ⟨w, hw, hvideo⟩ := Option.map_eq_some_iff.1 hvideo
  refine ⟨by decide, w, hw, hvideo, ?_⟩
  intro h
  rw [Indexed, hvideo] at h
  exact absurd h.1 (by decide)

end Xine.Avi
