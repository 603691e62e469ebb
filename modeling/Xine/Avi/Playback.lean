import Xine.Avi.Turns
import Xine.Library.Tallies

/-!
# What playback delivers

Calls of `demux_avi_next` from the start of a file until there is no more to come. They deliver what they should if
and only if all turns fit.
-/

namespace Xine.Avi

open Fuel Pieces AviPlay Relation

namespace Feed

variable {D : Doubles} {decoder_flags : ℕ} {start : AviPlay} {feed feed' final : Feed} {c c' : AviCall}
  {video_pts : ℤ} {fuel n track : ℕ}

/-! ## What is put into the fifos -/

theorem audioTurn_returned (h : c.returned = true) :
    audioTurn D decoder_flags video_pts fuel c track = some c := if_pos h

theorem audioTurn_extends (h : audioTurn D decoder_flags video_pts fuel c track = some c') :
    c.feed.Extends c'.feed := by
  unfold audioTurn at h
  split_ifs at h
  · exact Option.some.inj h ▸ .refl _
  · obtain ⟨⟨this, aie⟩, -, h⟩ := Option.bind_eq_some_iff.1 h
    cases aie with
    | none => exact Option.some.inj h ▸ ⟨List.prefix_rfl, List.prefix_rfl⟩
    | some aie =>
      dsimp only at h
      split_ifs at h
      · obtain ⟨⟨this', read⟩, -, h⟩ := Option.bind_eq_some_iff.1 h
        cases read with
        | none => exact Option.some.inj h ▸ ⟨List.prefix_rfl, List.prefix_rfl⟩
        | some read => exact Option.some.inj h ▸ extends_putAudio c this' _
      · exact Option.some.inj h ▸ ⟨List.prefix_rfl, List.prefix_rfl⟩

theorem videoTurn_extends {r : Feed × Bool} (h : videoTurn decoder_flags video_pts fuel c = some r) :
    c.feed.Extends r.1 := by
  unfold videoTurn at h
  split_ifs at h
  · exact Option.some.inj h ▸ .refl _
  · obtain ⟨⟨this, read⟩, -, h⟩ := Option.bind_eq_some_iff.1 h
    cases read with
    | none => exact Option.some.inj h ▸ ⟨List.prefix_rfl, List.prefix_rfl⟩
    | some read => exact Option.some.inj h ▸ ⟨List.prefix_append _ _, List.prefix_rfl⟩
  · exact Option.some.inj h ▸ .refl _

/-! ## A call -/

/-- A call when the turns begin. -/
def called (feed : Feed) : AviCall := ⟨feed, feed.this.demux.audio.length = 0, none, false⟩

/-- The turns of some audio streams in a call. -/
def turnsTaken (D : Doubles) (decoder_flags : ℕ) (feed : Feed) (n fuel : ℕ) : Option AviCall :=
  (List.range n).foldlM (audioTurn D decoder_flags (feed.this.getVideoPts D feed.this.video_posf) fuel)
    feed.called

theorem turnsTaken_succ (fuel : ℕ) : feed.turnsTaken D decoder_flags (n + 1) fuel =
    (feed.turnsTaken D decoder_flags n fuel).bind fun c =>
      audioTurn D decoder_flags (feed.this.getVideoPts D feed.this.video_posf) fuel c n := by
  unfold turnsTaken
  exact Loops.foldlM_range_succ _ _ n

/-- A stream has no current entry. -/
def Short (feed : Feed) : Prop :=
  feed.this.demux.vindex.length ≤ feed.this.video_posf ∨ feed.this.no_audio = false ∧
    ∃ track < feed.this.demux.audio.length,
      (feed.this.demux.aindex track).length ≤ feed.this.audio_posc track

/-- A call does no harm: no stream has bytes left if one has no current entry, and else all turns fit. -/
structure CallFits (D : Doubles) (decoder_flags : ℕ) (feed : Feed) : Prop where
  short : feed.Short → feed.this.AllDone
  turn : ¬feed.Short → ∀ n < feed.this.demux.audio.length, ∀ c,
    Settles (feed.turnsTaken D decoder_flags n) (some c) → c.returned = false →
      c.feed.this.TurnFits D (feed.this.getVideoPts D feed.this.video_posf) n
  frame : ¬feed.Short → ∀ c,
    Settles (feed.turnsTaken D decoder_flags feed.this.demux.audio.length) (some c) → c.returned = false →
      c.do_read_video = true → c.feed.this.FrameFits D (feed.this.getVideoPts D feed.this.video_posf)

theorem audioReady_settles (hsame : Same start feed.this) (ready : Bool) (n : ℕ) :
    ∃ next : Bool, Settles (fun fuel => audioReady fuel (feed.this, ready) n) (some (feed.this, next)) ∧
      (next = true ↔ ready = true ∧ (feed.this.no_audio = false →
        feed.this.audio_posc n < (feed.this.demux.aindex n).length)) := by
  unfold audioReady
  by_cases hgo : ready = true ∧ feed.this.no_audio = false
  · have hcurrent := (audioCurIndexEntry_settles hsame n).map
      fun found : AviPlay × Option AudioIndexEntry => (found.1, found.2.isSome)
    refine ⟨(start.demux.aindex n)[feed.this.audio_posc n]?.isSome, ?_, ?_⟩
    · simp only [if_pos hgo]
      exact hcurrent
    · rw [isSome_getElem?, ← hsame.aindex, imp_iff_right hgo.2, and_iff_right hgo.1]
  · refine ⟨ready, ?_, ?_⟩
    · simp only [if_neg hgo]
      exact Settles.const _
    · exact ⟨fun hready => ⟨hready, fun haudio => absurd ⟨hready, haudio⟩ hgo⟩, And.left⟩

theorem allReady_settles (hsame : Same start feed.this) (n : ℕ) :
    ∃ ready : Bool, Settles (fun fuel => (List.range n).foldlM (audioReady fuel) (feed.this, true))
      (some (feed.this, ready)) ∧ (ready = true ↔ (feed.this.no_audio = false → ∀ track < n,
        feed.this.audio_posc track < (feed.this.demux.aindex track).length)) := by
  induction n with
  | zero => exact ⟨true, Settles.const _, iff_of_true rfl fun _ track h => absurd h (Nat.not_lt_zero track)⟩
  | succ n ih =>
    obtain ⟨ready, hready, hiff⟩ := ih
    obtain ⟨next, hnext, hnextIff⟩ := audioReady_settles hsame ready n
    have hsucc : (fun fuel => (List.range (n + 1)).foldlM (audioReady fuel) (feed.this, true)) = fun fuel =>
        ((List.range n).foldlM (audioReady fuel) (feed.this, true)).bind fun s => audioReady fuel s n :=
      funext fun fuel => Loops.foldlM_range_succ _ _ n
    rw [hsucc]
    refine ⟨next, hready.bind_some hnext, ?_⟩
    rw [hnextIff, hiff]
    constructor
    · rintro ⟨hrest, hlast⟩ haudio track htrack
      obtain hlt | rfl := Nat.lt_succ_iff_lt_or_eq.1 htrack
      · exact hrest haudio track hlt
      · exact hlast haudio
    · exact fun hall => ⟨fun haudio track htrack => hall haudio track (Nat.lt_succ_of_lt htrack),
        fun haudio => hall haudio n (Nat.lt_succ_self n)⟩

theorem demuxAviNext_short (hsame : Same start feed.this) (hshort : feed.Short) :
    Settles (fun fuel => feed.demuxAviNext D decoder_flags fuel) (some (feed, false)) := by
  have hvideo := videoCurIndexEntry_settles hsame
  refine hvideo.bind_some ?_
  dsimp only
  rw [← hsame.vindex]
  by_cases hend : feed.this.demux.vindex.length ≤ feed.this.video_posf
  · simp only [List.getElem?_eq_none hend, if_pos]
    exact Settles.const _
  · obtain hend' | ⟨haudio, track, htrack, hpast⟩ := hshort
    · exact absurd hend' hend
    · obtain ⟨ready, hready, hiff⟩ := allReady_settles hsame feed.this.demux.audio.length
      have hnot : ready ≠ true := fun htrue => absurd hpast (not_le.2 (hiff.1 htrue haudio track htrack))
      rw [List.getElem?_eq_getElem (not_le.1 hend)]
      simp only [reduceCtorEq, if_false]
      refine hready.bind_some ?_
      simp only [if_pos hnot]
      exact Settles.const _

theorem demuxAviNext_turns (hsame : Same start feed.this) (hshort : ¬feed.Short) :
    ∃ least, ∀ fuel, least ≤ fuel → feed.demuxAviNext D decoder_flags fuel =
      (feed.turnsTaken D decoder_flags feed.this.demux.audio.length fuel).bind fun c =>
        videoTurn decoder_flags (feed.this.getVideoPts D feed.this.video_posf) fuel c := by
  obtain ⟨hend, haudio⟩ := not_or.1 hshort
  obtain ⟨m, hm⟩ := videoCurIndexEntry_settles hsame
  obtain ⟨ready, ⟨n, hn⟩, hiff⟩ := allReady_settles hsame feed.this.demux.audio.length
  have hready : ready = true := by
    refine hiff.2 fun hheard track htrack => not_le.1 fun hpast => haudio ⟨hheard, track, htrack, hpast⟩
  refine ⟨max m n, fun fuel hfuel => ?_⟩
  have hvideo := hm fuel ((le_max_left m n).trans hfuel)
  rw [← hsame.vindex, List.getElem?_eq_getElem (not_le.1 hend)] at hvideo
  have hall := hn fuel ((le_max_right m n).trans hfuel)
  dsimp only at hvideo hall
  unfold demuxAviNext
  rw [hvideo]
  simp only [Option.bind_eq_bind, Option.bind_some, reduceCtorEq, if_false]
  rw [hall, hready]
  simp only [Option.bind_some, not_true_eq_false, if_false]
  rfl

theorem exists_taken (hstored : Stored start) (hgood : Good D decoder_flags start feed)
    (hn : n ≤ start.demux.audio.length)
    (hfits : ∀ m < n, ∀ c, Settles (feed.turnsTaken D decoder_flags m) (some c) → c.returned = false →
      c.feed.this.TurnFits D (feed.this.getVideoPts D feed.this.video_posf) m) :
    ∃ c, Settles (feed.turnsTaken D decoder_flags n) (some c) ∧ Taken D decoder_flags start feed n c := by
  induction n with
  | zero =>
    refine ⟨feed.called, Settles.const _, .refl _, fun _ => hgood,
      fun htrue => absurd htrue Bool.false_ne_true, fun size hsome => absurd hsome.symm (Option.some_ne_none _), ?_⟩
    by_cases hzero : start.demux.audio.length = 0
    · exact .inl (decide_eq_true (hgood.same.audio ▸ hzero))
    · exact .inr (.inr (.inr ⟨rfl, hzero⟩))
  | succ n ih =>
    obtain ⟨c, hc, htaken⟩ := ih (Nat.le_of_succ_le hn) fun m hm => hfits m (Nat.lt_succ_of_lt hm)
    have hsucc : feed.turnsTaken D decoder_flags (n + 1) = fun fuel =>
        (feed.turnsTaken D decoder_flags n fuel).bind fun c =>
          audioTurn D decoder_flags (feed.this.getVideoPts D feed.this.video_posf) fuel c n :=
      funext fun fuel => turnsTaken_succ fuel
    rw [hsucc]
    cases hreturned : c.returned with
    | true =>
      refine ⟨c, hc.bind_some ?_, htaken.grown, htaken.good, htaken.completed, htaken.size,
        .inr (.inr (.inl hreturned))⟩
      simp only [audioTurn_returned hreturned]
      exact Settles.const _
    | false =>
      obtain ⟨c', hc', htaken', -⟩ :=
        audioTurn_settles (feed.this.getVideoPts D feed.this.video_posf) hstored htaken hreturned hn
      exact ⟨c', hc.bind_some hc', htaken' (hfits n (Nat.lt_succ_self n) c hc hreturned)⟩

theorem exists_called (hstored : Stored start) (hgood : Good D decoder_flags start feed)
    (hfits : feed.CallFits D decoder_flags) :
    ∃ r, Settles (fun fuel => feed.demuxAviNext D decoder_flags fuel) (some r) ∧
      Called D decoder_flags start feed r := by
  have hlength : feed.this.demux.audio.length = start.demux.audio.length := by rw [hgood.same.audio]
  by_cases hshort : feed.Short
  · refine ⟨(feed, false), demuxAviNext_short hgood.same hshort, .refl _,
      fun htrue => absurd htrue Bool.false_ne_true, fun _ => ?_⟩
    exact hgood.completed_iff.2 (hfits.short hshort)
  · obtain ⟨c, hc, htaken⟩ := exists_taken hstored hgood le_rfl fun m hm =>
      hfits.turn hshort m (hlength ▸ hm)
    obtain ⟨r, hr, hcalled, -⟩ :=
      videoTurn_settles D (feed.this.getVideoPts D feed.this.video_posf) hstored htaken
    refine ⟨r, Settles.congr (hc.bind_some hr) (hlength ▸ demuxAviNext_turns hgood.same hshort), ?_⟩
    exact hcalled (hfits.frame hshort c (hlength.symm ▸ hc))

/-! ## Harm -/

theorem demuxAviNext_extends {r : Feed × Bool} (h : feed.demuxAviNext D decoder_flags fuel = some r) :
    feed.Extends r.1 := by
  obtain ⟨⟨this, vie⟩, -, h⟩ := Option.bind_eq_some_iff.1 h
  dsimp only at h
  split_ifs at h
  · exact Option.some.inj h ▸ ⟨List.prefix_rfl, List.prefix_rfl⟩
  · obtain ⟨⟨this', ready⟩, -, h⟩ := Option.bind_eq_some_iff.1 h
    dsimp only at h
    split_ifs at h
    · obtain ⟨c, hc, h⟩ := Option.bind_eq_some_iff.1 h
      have hstart : feed.Extends { feed with this := this' } := ⟨List.prefix_rfl, List.prefix_rfl⟩
      have hturns := Loops.foldlM_keeps (I := fun c => feed.Extends c.feed)
        (fun s hs a _ t ht => hs.trans (audioTurn_extends ht)) hstart hc
      exact hturns.trans (videoTurn_extends h)
    · exact Option.some.inj h ▸ ⟨List.prefix_rfl, List.prefix_rfl⟩

theorem playAll_extends (h : playAll D decoder_flags fuel feed = some final) : feed.Extends final := by
  induction fuel generalizing feed with
  | zero => exact absurd h.symm (Option.some_ne_none final)
  | succ fuel ih =>
    obtain ⟨⟨feed', more⟩, hnext, h⟩ := Option.bind_eq_some_iff.1 h
    have hextends := demuxAviNext_extends hnext
    dsimp only at h
    split_ifs at h
    · exact hextends.trans (ih h)
    · exact Option.some.inj h ▸ hextends

theorem Spoilt.audioTurn (h : Spoilt D decoder_flags start c)
    (hturn : Feed.audioTurn D decoder_flags video_pts fuel c track = some c') :
    Spoilt D decoder_flags start c' := by
  obtain hlost | ⟨hreturned, hnot⟩ := h
  · exact .inl (hlost.extends (audioTurn_extends hturn))
  · rw [audioTurn_returned hreturned] at hturn
    exact Option.some.inj hturn ▸ .inr ⟨hreturned, hnot⟩

theorem Spoilt.videoTurn (h : Spoilt D decoder_flags start c) {r : Feed × Bool}
    (hturn : Feed.videoTurn decoder_flags video_pts fuel c = some r) : Ruined D decoder_flags start r := by
  obtain hlost | ⟨hreturned, hnot⟩ := h
  · exact .inl (hlost.extends (videoTurn_extends hturn))
  · unfold Feed.videoTurn at hturn
    rw [if_pos hreturned] at hturn
    exact Option.some.inj hturn ▸ .inr ⟨rfl, hnot⟩

theorem not_completed_of_ruined {r : Feed × Bool} (hnext : feed.demuxAviNext D decoder_flags fuel = some r)
    (hruined : Ruined D decoder_flags start r) (hplay : playAll D decoder_flags (fuel + 1) feed = some final) :
    ¬final.Completed D decoder_flags start := by
  obtain ⟨r', hr', h⟩ := Option.bind_eq_some_iff.1 hplay
  obtain rfl := Option.some.inj (hnext.symm.trans hr')
  dsimp only at h
  obtain hlost | ⟨hover, hnot⟩ := hruined
  · split_ifs at h
    · exact hlost final (playAll_extends h)
    · exact Option.some.inj h ▸ hlost r.1 (.refl _)
  · rw [if_neg (Bool.eq_false_iff.1 hover)] at h
    exact Option.some.inj h ▸ hnot

theorem turnsTaken_of_le {count : ℕ} (hn : n ≤ count) (h : feed.turnsTaken D decoder_flags n fuel = some c) :
    feed.turnsTaken D decoder_flags count fuel = (List.range' n (count - n)).foldlM
      (audioTurn D decoder_flags (feed.this.getVideoPts D feed.this.video_posf) fuel) c := by
  have hrange : List.range count = List.range n ++ List.range' n (count - n) := by
    rw [List.range_eq_range', List.range_eq_range']
    have happend := @List.range'_append_1 0 n (count - n)
    rw [Nat.zero_add, Nat.add_sub_cancel' hn] at happend
    exact happend.symm
  unfold turnsTaken at h ⊢
  rw [hrange, List.foldlM_append, h]
  rfl

theorem not_completed_of_spoilt (hsame : Same start feed.this) (hshort : ¬feed.Short)
    (hn : n ≤ start.demux.audio.length) (hc : Settles (feed.turnsTaken D decoder_flags n) (some c))
    (hspoilt : Spoilt D decoder_flags start c)
    (hplay : Settles (fun fuel => playAll D decoder_flags fuel feed) (some final)) :
    ¬final.Completed D decoder_flags start := by
  obtain ⟨m, hm⟩ := hc
  obtain ⟨k, hk⟩ := hplay
  obtain ⟨least, hleast⟩ := @demuxAviNext_turns D decoder_flags _ _ hsame hshort
  -- some fuel that is enough for all of them
  obtain ⟨fuel, hturns, hplays, hcall⟩ : ∃ fuel, m ≤ fuel ∧ k ≤ fuel ∧ least ≤ fuel :=
    ⟨m + k + least, by omega, by omega, by omega⟩
  have hplay := hk (fuel + 1) (Nat.le_succ_of_le hplays)
  obtain ⟨r, hnext, -⟩ := Option.bind_eq_some_iff.1 hplay
  have hnext' := hnext
  rw [hleast fuel hcall, hsame.audio, turnsTaken_of_le hn (hm fuel hturns)] at hnext'
  obtain ⟨last, hlast, hvideo⟩ := Option.bind_eq_some_iff.1 hnext'
  have hrest := Loops.foldlM_keeps (fun s hs a _ t ht => Spoilt.audioTurn hs ht) hspoilt hlast
  exact not_completed_of_ruined hnext (Spoilt.videoTurn hrest hvideo) hplay

/-- Playback comes to an end with all chunks in the fifos. -/
def Plays (D : Doubles) (decoder_flags : ℕ) (start : AviPlay) (feed : Feed) : Prop :=
  ∃ final, Settles (fun fuel => playAll D decoder_flags fuel feed) (some final) ∧
    final.Completed D decoder_flags start

theorem callFits_of_plays (hstored : Stored start) (hgood : Good D decoder_flags start feed)
    (h : Plays D decoder_flags start feed) : feed.CallFits D decoder_flags := by
  obtain ⟨final, hplay, hcompleted⟩ := h
  have hsame := hgood.same
  have hlength : feed.this.demux.audio.length = start.demux.audio.length := by rw [hsame.audio]
  have hturn (hshort : ¬feed.Short) (n : ℕ) (hn : n < start.demux.audio.length) (c : AviCall)
      (hc : Settles (feed.turnsTaken D decoder_flags n) (some c)) (hreturned : c.returned = false) :
      c.feed.this.TurnFits D (feed.this.getVideoPts D feed.this.video_posf) n := by
    -- the turns in front of this one fit
    induction n using Nat.strong_induction_on generalizing c with
    | _ n ih =>
      obtain ⟨c', hc', htaken⟩ := exists_taken hstored hgood hn.le fun m hm => ih m hm (hm.trans hn)
      obtain rfl := Option.some.inj (hc.unique hc')
      obtain ⟨next, hnext, -, hharm⟩ :=
        audioTurn_settles (feed.this.getVideoPts D feed.this.video_posf) hstored htaken hreturned hn
      have hsucc : feed.turnsTaken D decoder_flags (n + 1) = fun fuel =>
          (feed.turnsTaken D decoder_flags n fuel).bind fun c =>
            audioTurn D decoder_flags (feed.this.getVideoPts D feed.this.video_posf) fuel c n :=
        funext fun fuel => turnsTaken_succ fuel
      by_contra hmisfit
      exact not_completed_of_spoilt hsame hshort hn (hsucc ▸ hc.bind_some hnext) (hharm hmisfit) hplay hcompleted
  refine ⟨fun hshort => ?_, fun hshort n hn => hturn hshort n (hlength ▸ hn), fun hshort c hc => ?_⟩
  · obtain rfl : final = feed := by
      have hlast : Settles (fun fuel => playAll D decoder_flags fuel feed) (some feed) := by
        refine Settles.succ (fun fuel => rfl) ((demuxAviNext_short hsame hshort).bind_some ?_)
        exact Settles.const _
      exact Option.some.inj (hplay.unique hlast)
    exact hgood.completed_iff.1 hcompleted
  · obtain ⟨c', hc', htaken⟩ := exists_taken hstored hgood le_rfl fun m hm => hturn hshort m hm
    obtain rfl := Option.some.inj (hc.unique (hlength.symm ▸ hc'))
    obtain ⟨r, hr, -, hharm⟩ :=
      videoTurn_settles D (feed.this.getVideoPts D feed.this.video_posf) hstored htaken
    have hnext : Settles (fun fuel => feed.demuxAviNext D decoder_flags fuel) (some r) :=
      Settles.congr (hc.bind_some hr) (demuxAviNext_turns hsame hshort)
    by_contra hmisfit
    obtain ⟨m, hm⟩ := hnext
    obtain ⟨k, hk⟩ := hplay
    have hfirst := hm (max m k) (le_max_left m k)
    have hplays := hk (max m k + 1) (Nat.le_succ_of_le (le_max_right m k))
    have hnot : ¬(c.returned = false → c.do_read_video = true →
        c.feed.this.FrameFits D (feed.this.getVideoPts D feed.this.video_posf)) := hmisfit
    exact not_completed_of_ruined hfirst (hharm hnot) hplays hcompleted

/-! ## The whole playback -/

/-- A feed at the start of a file whose chunks are all in the indexes. -/
structure Playable (feed : Feed) : Prop where
  atEnd : feed.this.demux.AtEnd
  stored : Stored feed.this
  video_posf : feed.this.video_posf = 0
  video_posb : feed.this.video_posb = 0
  audio_posc : ∀ track, feed.this.audio_posc track = 0
  audio_posb : ∀ track, feed.this.audio_posb track = 0
  video_fifo : feed.video_fifo = []
  audio_fifo : feed.audio_fifo.getD [] = []
  heard : feed.this.no_audio = false → feed.audio_fifo.isSome

/-- A call that is not the last one. -/
def Goes (D : Doubles) (decoder_flags : ℕ) (feed feed' : Feed) : Prop :=
  Settles (fun fuel => feed.demuxAviNext D decoder_flags fuel) (some (feed', true))

/-- All calls of a playback fit. -/
def RunFits (D : Doubles) (decoder_flags : ℕ) (feed : Feed) : Prop :=
  ∀ feed', ReflTransGen (Goes D decoder_flags) feed feed' → feed'.CallFits D decoder_flags

/-- Playback delivers all chunks, in pieces that are right. -/
def Delivers (D : Doubles) (decoder_flags : ℕ) (feed : Feed) : Prop := Plays D decoder_flags feed.this feed

theorem Playable.good (h : feed.Playable) : Good D decoder_flags feed.this feed where
  same := ⟨rfl, rfl, rfl, rfl, rfl, rfl, h.atEnd⟩
  heard := h.heard
  tracks buf hbuf := absurd (h.audio_fifo ▸ hbuf) List.not_mem_nil
  video_posb := h.video_posb.ge
  audio_posb track := (h.audio_posb track).ge
  video := by
    rw [h.video_fifo, h.video_posf, h.video_posb]
    exact .start
  audio track := by
    unfold trackBufs
    rw [h.audio_fifo, h.audio_posc, h.audio_posb]
    exact .start

theorem amount_le (h : Good D decoder_flags start feed) :
    feed.amount ≤ total (sizes start.demux.video) +
      ∑ track ∈ Finset.range start.demux.audio.length, total (sizes (start.demux.trackChunks track)) := by
  unfold amount
  rw [length_eq_sum_filter AudioElement.track h.tracks]
  exact Nat.add_le_add h.video.length_le (Finset.sum_le_sum fun track _ => (h.audio track).length_le)

theorem Plays.next (h : Plays D decoder_flags start feed) (hgoes : Goes D decoder_flags feed feed') :
    Plays D decoder_flags start feed' := by
  obtain ⟨final, hplay, hcompleted⟩ := h
  exact ⟨final, hgoes.of_bind (hplay.of_succ fun fuel => rfl), hcompleted⟩

/-- Playback delivers what it should if and only if all of its calls fit. -/
theorem delivers_iff (D : Doubles) (decoder_flags : ℕ) (feed : Feed) (h : feed.Playable) :
    feed.Delivers D decoder_flags ↔ feed.RunFits D decoder_flags := by
  constructor
  · intro hdelivers feed' hrun
    -- what the fifos hold is right as far as the calls have come
    have hgood : Good D decoder_flags feed.this feed' ∧ Plays D decoder_flags feed.this feed' := by
      induction hrun with
      | refl => exact ⟨h.good, hdelivers⟩
      | @tail mid last hrun hgoes ih =>
        obtain ⟨hgood, hplays⟩ := ih
        obtain ⟨r, hr, hcalled⟩ := exists_called h.stored hgood (callFits_of_plays h.stored hgood hplays)
        obtain rfl := Option.some.inj (hr.unique hgoes)
        exact ⟨(hcalled.good rfl).1, hplays.next hgoes⟩
    exact callFits_of_plays h.stored hgood.1 hgood.2
  · intro hfits
    -- by induction on the number of the buffers that may still come
    have hplays (n : ℕ) (feed' : Feed) (hgood : Good D decoder_flags feed.this feed')
        (hrun : ReflTransGen (Goes D decoder_flags) feed feed')
        (hn : total (sizes feed.this.demux.video) + ∑ track ∈ Finset.range feed.this.demux.audio.length,
          total (sizes (feed.this.demux.trackChunks track)) < feed'.amount + n) :
        Plays D decoder_flags feed.this feed' := by
      induction n generalizing feed' with
      | zero => exact absurd (amount_le hgood) (not_le.2 hn)
      | succ n ih =>
        obtain ⟨⟨next, more⟩, hr, hcalled⟩ := exists_called h.stored hgood (hfits feed' hrun)
        cases more with
        | false =>
          exact ⟨next, Settles.succ (fun fuel => rfl) (hr.bind_some (Settles.const _)), hcalled.completed rfl⟩
        | true =>
          obtain ⟨hnext, hamount⟩ := hcalled.good rfl
          dsimp only at hamount
          obtain ⟨final, hplay, hcompleted⟩ := ih next hnext (hrun.tail hr) (by omega)
          exact ⟨final, Settles.succ (fun fuel => rfl) (hr.bind_some hplay), hcompleted⟩
    exact hplays (total (sizes feed.this.demux.video) +
      ∑ track ∈ Finset.range feed.this.demux.audio.length, total (sizes (feed.this.demux.trackChunks track)) + 1)
      feed h.good .refl (by omega)

/-- A film of one frame, which is shorter than a buffer. -/
def still : Feed where
  this := {
    demux := {
      input := ⟨[1, 2, 3, 4, 5], 0⟩
      nexttagoffset := 5
      video_tag := (48, 48)
      video_type := .other
      vindex := [⟨0, 5, 16⟩]
      audio := [] }
    streaming := false
    no_audio := false
    status := .ok
    rate := ⟨0, 1, 25⟩
    audio_rate _ := ⟨0, 1, 1⟩
    video_posf := 0
    video_posb := 0
    audio_posc _ := 0
    audio_posb _ := 0 }
  video_fifo := []
  audio_fifo := some []

theorem still_playable : still.Playable where
  atEnd := ⟨by decide, by decide, by decide⟩
  stored := by
    refine ⟨fun chunk hchunk => ?_, fun track chunk hchunk => absurd hchunk List.not_mem_nil⟩
    obtain rfl := List.mem_singleton.1 hchunk
    exact ⟨by decide, by decide, by decide⟩
  video_posf := rfl
  video_posb := rfl
  audio_posc _ := rfl
  audio_posb _ := rfl
  video_fifo := rfl
  audio_fifo := rfl
  heard _ := rfl

theorem delivers_iff_still :
    still.Playable ∧ (still.Delivers Doubles.exact 0 ↔ still.RunFits Doubles.exact 0) :=
  ⟨still_playable, delivers_iff Doubles.exact 0 still still_playable⟩

/-- The only frame of a film is lost. -/
theorem not_delivers_still : still.Playable ∧ ¬still.Delivers Doubles.exact 0 := by
  refine ⟨still_playable, fun hplays => ?_⟩
  have hfits := callFits_of_plays still_playable.stored still_playable.good hplays
  have hshort : ¬still.Short := by
    rintro (hpast | ⟨-, track, htrack, -⟩)
    · exact absurd hpast (by decide)
    · exact absurd htrack (Nat.not_lt_zero track)
  have hframe := hfits.frame hshort still.called (Settles.const _) rfl rfl
  have hpiece := (hframe.piece 0 0 (.here rfl (by decide))).1
  exact absurd hpiece (by decide)

end Feed

end Xine.Avi
