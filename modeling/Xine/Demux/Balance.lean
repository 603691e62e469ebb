import Xine.Demux.System

/-!
# Control markers stay balanced

A marker that is in both fifos only is counted by `Track.total`, handled or pending.
-/

namespace Xine.Demux

open Track

variable {τ : Type*} [DecidableEq τ]

/-- The marker whose video half a thread has put, and the audio half not. -/
def Pc.half : Pc → Option (BitVec 32)
  | .helperAudio h => some h.type
  | .flushResetAudio => some bufControlResetDecoder
  | .headersAudio .. => some bufControlHeadersDone
  | _ => none

/-- Whether a thread is in `xine_demux_control_headers_done`. -/
def Pc.inHeaders : Pc → Bool
  | .headersVideo .. | .headersAudio .. | .headersCheck .. | .headersWait .. => true
  | _ => false

/-! ## The two halves -/

/-- The markers of a kind on the video side are those on the audio side and one for each thread that
is half way. -/
def Balanced (pc : τ → Pc) (kind : BitVec 32) (video audio : ℕ) : Prop :=
  ∃ ts : Finset τ, (∀ t, t ∈ ts ↔ (pc t).half = some kind) ∧ video = audio + ts.card

section Balanced

variable {pc : τ → Pc} {kind type : BitVec 32} {video audio : ℕ} {t : τ} {pc' : Pc}

theorem Balanced.goto (h : Balanced pc kind video audio) (hhalf : pc'.half = (pc t).half) :
    Balanced (Function.update pc t pc') kind video audio := by
  obtain ⟨ts, hts, hcard⟩ := h
  refine ⟨ts, fun u => ?_, hcard⟩
  by_cases hu : u = t
  · rw [hu, Function.update_self, hhalf, hts]
  · rw [Function.update_of_ne hu, hts]

theorem Balanced.enter (h : Balanced pc kind video audio) (hnone : (pc t).half = none)
    (hhalf : pc'.half = some type) :
    Balanced (Function.update pc t pc') kind (video + if type = kind then 1 else 0) audio := by
  obtain ⟨ts, hts, hcard⟩ := h
  by_cases hkind : type = kind
  · subst hkind
    have hmem : t ∉ ts := by simp [hts, hnone]
    refine ⟨insert t ts, fun u => ?_, ?_⟩
    · by_cases hu : u = t
      · simp [hu, hhalf]
      · simp [hu, hts]
    · rw [Finset.card_insert_of_notMem hmem, hcard, if_pos rfl]
      omega
  · refine ⟨ts, fun u => ?_, by rw [if_neg hkind]; exact hcard⟩
    by_cases hu : u = t
    · rw [hu, Function.update_self, hhalf, hts, hnone]
      simp [hkind]
    · rw [Function.update_of_ne hu, hts]

theorem Balanced.leave (h : Balanced pc kind video audio) (hhalf : (pc t).half = some type)
    (hnone : pc'.half = none) :
    Balanced (Function.update pc t pc') kind video (audio + if type = kind then 1 else 0) := by
  obtain ⟨ts, hts, hcard⟩ := h
  by_cases hkind : type = kind
  · subst hkind
    have hmem : t ∈ ts := (hts t).2 hhalf
    refine ⟨ts.erase t, fun u => ?_, ?_⟩
    · by_cases hu : u = t
      · simp [hu, hnone]
      · simp [hu, hts]
    · have hpos := Finset.card_pos.2 ⟨t, hmem⟩
      rw [Finset.card_erase_of_mem hmem, hcard, if_pos rfl]
      omega
  · refine ⟨ts, fun u => ?_, by rw [if_neg hkind]; exact hcard⟩
    by_cases hu : u = t
    · rw [hu, Function.update_self, hnone, hts, hhalf]
      simp [hkind]
    · rw [Function.update_of_ne hu, hts]

end Balanced

/-! ## The headers -/

/-- What the caller of `headers_done` waits for at the audio side, if there is one. -/
def AudioSide (s : State τ) (side : Prop) (n : ℕ) : Prop :=
  s.has_audio_fifo = true ∧ side ∨
    s.has_audio_fifo = false ∧ s.audio.headers audioIsHeaders = [] ∧ n = 0

/-- What holds at each place of the caller of `headers_done`. -/
def CallerInv (s : State τ) : Pc → Prop
  | .headersVideo hv ha =>
    s.counter_lock = true ∧ s.video.Quiet videoIsHeaders hv ∧
      AudioSide s (s.audio.Quiet audioIsHeaders ha) ha
  | .headersAudio hv ha video =>
    s.counter_lock = true ∧ s.video.Awaits videoIsHeaders video hv ∧
      s.has_audio_fifo = true ∧ s.audio.Quiet audioIsHeaders ha
  | .headersCheck hv ha video audio =>
    s.counter_lock = true ∧ s.video.Awaits videoIsHeaders video hv ∧
      AudioSide s (s.audio.Awaits audioIsHeaders audio ha) ha
  | .headersWait hv ha video audio =>
    s.counter_lock = false ∧ s.video.Awaits videoIsHeaders video hv ∧
      AudioSide s (s.audio.Awaits audioIsHeaders audio ha) ha
  | _ => False

/-- Without a caller no header is on its way, and with one it is where it is. -/
def HeadersInv (s : State τ) : Prop :=
  match s.headers_caller with
  | none =>
    s.counter_lock = false ∧ s.video.headers videoIsHeaders = [] ∧
      s.audio.headers audioIsHeaders = [] ∧ ∀ t, (s.pc t).inHeaders = false
  | some t => (∀ u, u ≠ t → (s.pc u).inHeaders = false) ∧ CallerInv s (s.pc t)

/-- An operation on a track that the caller of `headers_done` does not notice. -/
structure Keeps (isHeaders : BitVec 32 → Bool) (x x' : Track) : Prop where
  nil : x.headers isHeaders = [] → x'.headers isHeaders = []
  quiet : ∀ n, x.Quiet isHeaders n → x'.Quiet isHeaders n
  awaits : ∀ m n, x.Awaits isHeaders m n → x'.Awaits isHeaders m n

section Headers

variable {isHeaders : BitVec 32 → Bool} {x x' : Track} {b : Buf} {counter_lock : Bool}

theorem Keeps.refl (isHeaders : BitVec 32 → Bool) (x : Track) : Keeps isHeaders x x :=
  ⟨id, fun _ => id, fun _ _ => id⟩

theorem Keeps.put (hb : isHeaders b.type = false) : Keeps isHeaders x (x.put b) :=
  ⟨fun hnil => (headers_put x hb).trans hnil, fun _ h => h.put hb, fun _ _ h => h.put hb⟩

theorem Keeps.clear (hheaders : ∀ b : Buf, isHeaders b.type → b.isControl) :
    Keeps isHeaders x x.clear :=
  ⟨fun hnil => (headers_clear x hheaders).trans hnil, fun _ h => h.clear hheaders,
    fun _ _ h => h.clear hheaders⟩

theorem Keeps.get (h : x.get = some x') : Keeps isHeaders x x' :=
  ⟨fun hnil => (headers_get h).trans hnil, fun _ hq => hq.get h, fun _ _ ha => ha.get h⟩

theorem Keeps.handle (hord : x.Ordered) (h : x.handle isHeaders counter_lock = some x') :
    Keeps isHeaders x x' :=
  ⟨fun hnil => (headers_handle_nil hnil h).1, fun _ hq => hq.handle h,
    fun _ _ ha => ha.handle hord h⟩

variable {s : State τ} {t : τ} {pc' : Pc}

omit [DecidableEq τ] in
theorem HeadersInv.tracks (h : HeadersInv s) {video audio : Track}
    (hvideo : Keeps videoIsHeaders s.video video) (haudio : Keeps audioIsHeaders s.audio audio) :
    HeadersInv { s with video, audio } := by
  have hside : ∀ {side side' : Prop} {n : ℕ}, (side → side') → AudioSide s side n →
      AudioSide { s with video, audio } side' n := by
    rintro side side' n himp (⟨hhas, hside⟩ | ⟨hhas, hnil, hn⟩)
    · exact .inl ⟨hhas, himp hside⟩
    · exact .inr ⟨hhas, haudio.nil hnil, hn⟩
  unfold HeadersInv at h ⊢
  dsimp only
  cases hcaller : s.headers_caller with
  | none =>
    rw [hcaller] at h
    obtain ⟨hlock, hv, ha, hpc⟩ := h
    exact ⟨hlock, hvideo.nil hv, haudio.nil ha, hpc⟩
  | some u =>
    rw [hcaller] at h
    refine ⟨h.1, ?_⟩
    have hcall := h.2
    generalize s.pc u = pc at hcall ⊢
    cases pc with
    | headersVideo hv ha =>
      exact ⟨hcall.1, hvideo.quiet _ hcall.2.1, hside (haudio.quiet _) hcall.2.2⟩
    | headersAudio hv ha mv =>
      exact ⟨hcall.1, hvideo.awaits _ _ hcall.2.1, hcall.2.2.1, haudio.quiet _ hcall.2.2.2⟩
    | headersCheck hv ha mv ma =>
      exact ⟨hcall.1, hvideo.awaits _ _ hcall.2.1, hside (haudio.awaits _ _) hcall.2.2⟩
    | headersWait hv ha mv ma =>
      exact ⟨hcall.1, hvideo.awaits _ _ hcall.2.1, hside (haudio.awaits _ _) hcall.2.2⟩
    | idle | helperAudio | flushAudio | flushReset | flushResetAudio | flushHeaders => exact hcall

omit [DecidableEq τ] in
theorem CallerInv.inHeaders {pc : Pc} (h : CallerInv s pc) : pc.inHeaders = true := by
  cases pc with
  | headersVideo | headersAudio | headersCheck | headersWait => rfl
  | idle | helperAudio | flushAudio | flushReset | flushResetAudio | flushHeaders => exact h.elim

theorem HeadersInv.caller (h : HeadersInv s) (ht : (s.pc t).inHeaders = true) :
    s.headers_caller = some t ∧ (∀ u, u ≠ t → (s.pc u).inHeaders = false) ∧
      CallerInv s (s.pc t) := by
  unfold HeadersInv at h
  cases hcaller : s.headers_caller with
  | none =>
    rw [hcaller] at h
    simp [h.2.2.2 t] at ht
  | some u =>
    rw [hcaller] at h
    have hut : t = u := by
      by_contra hne
      simp [h.1 t hne] at ht
    subst hut
    exact ⟨rfl, h.1, h.2⟩

theorem HeadersInv.goto (h : HeadersInv s) (ht : (s.pc t).inHeaders = false)
    (ht' : pc'.inHeaders = false) : HeadersInv (s.goto t pc') := by
  have hother : ∀ u, (s.pc u).inHeaders = false →
      (Function.update s.pc t pc' u).inHeaders = false := by
    intro u hu
    by_cases hut : u = t
    · rw [hut, Function.update_self, ht']
    · rw [Function.update_of_ne hut, hu]
  unfold HeadersInv State.goto at *
  dsimp only
  cases hcaller : s.headers_caller with
  | none =>
    rw [hcaller] at h
    exact ⟨h.1, h.2.1, h.2.2.1, fun u => hother u (h.2.2.2 u)⟩
  | some u =>
    rw [hcaller] at h
    refine ⟨fun v hv => hother v (h.1 v hv), ?_⟩
    have hne : u ≠ t := by
      rintro rfl
      simp [h.2.inHeaders] at ht
    rw [Function.update_of_ne hne]
    exact h.2

theorem HeadersInv.call {s' : State τ} (hother : ∀ u, u ≠ t → (s.pc u).inHeaders = false)
    (hpc : s'.pc = Function.update s.pc t pc') (hcaller : s'.headers_caller = some t)
    (hcall : CallerInv s' pc') : HeadersInv s' := by
  unfold HeadersInv
  rw [hcaller]
  dsimp only
  rw [hpc]
  refine ⟨fun u hu => ?_, ?_⟩
  · rw [Function.update_of_ne hu]
    exact hother u hu
  · rw [Function.update_self]
    exact hcall

end Headers

/-! ## The invariant -/

/-- The invariant of the stream. -/
structure Inv (s : State τ) : Prop where
  video_ordered : s.video.Ordered
  audio_ordered : s.audio.Ordered
  headers : HeadersInv s
  balanced : s.has_audio_fifo = true → ∀ kind ∈ markers,
    Balanced s.pc kind (s.video.total kind) (s.audio.total kind)

section Types

variable {type kind : BitVec 32}

theorem Helper.type_buf (h : Helper) (old : ℤ) : (h.buf old).type = h.type := by
  cases h <;> rfl

theorem Helper.isHeaders_type (h : Helper) :
    videoIsHeaders h.type = false ∧ audioIsHeaders h.type = false := by
  cases h with
  | newpts | start | «end» | nop => simp only [Helper.type]; decide

theorem isHeaders_reset : videoIsHeaders bufControlResetDecoder = false ∧
    audioIsHeaders bufControlResetDecoder = false := by
  decide

theorem isHeaders_headersDone : videoIsHeaders bufControlHeadersDone = true ∧
    audioIsHeaders bufControlHeadersDone = true := by
  decide

theorem markers_mask (hkind : kind ∈ markers) :
    kind &&& Buffer.bufMajorMask = Buffer.bufControlBase ∧ kind &&& 0xffff0000#32 = kind := by
  simp only [markers, List.mem_cons, List.not_mem_nil, or_false] at hkind
  rcases hkind with rfl | rfl | rfl | rfl | rfl | rfl <;> exact ⟨rfl, rfl⟩

theorem isControl_of_videoIsHeaders (b : Buf) (h : videoIsHeaders b.type) : b.isControl := by
  have hmask : b.type &&& Buffer.bufMajorMask =
      b.type &&& 0xffff0000#32 &&& Buffer.bufMajorMask := by
    rw [BitVec.and_assoc]
    rfl
  simp only [videoIsHeaders, beq_iff_eq] at h
  simp only [Buf.isControl, beq_iff_eq]
  rw [hmask, h]
  rfl

theorem isControl_of_audioIsHeaders (b : Buf) (h : audioIsHeaders b.type) : b.isControl := by
  simp only [audioIsHeaders, beq_iff_eq] at h
  simp only [Buf.isControl, h]
  rfl

theorem isControl_of_mem_markers (hkind : kind ∈ markers) (b : Buf) (h : b.type = kind) :
    b.isControl := by
  simp only [Buf.isControl, beq_iff_eq, h]
  exact (markers_mask hkind).1

theorem not_marker (h : type &&& 0xffff0000#32 ∉ markers) :
    videoIsHeaders type = false ∧ audioIsHeaders type = false ∧ ∀ kind ∈ markers, type ≠ kind := by
  have hne : ∀ kind ∈ markers, type ≠ kind := by
    rintro kind hkind rfl
    exact h (by rwa [(markers_mask hkind).2])
  have hmem : bufControlHeadersDone ∈ markers := by simp [markers]
  refine ⟨?_, ?_, hne⟩
  · by_contra hheaders
    simp only [videoIsHeaders, Bool.not_eq_false, beq_iff_eq] at hheaders
    exact h (hheaders ▸ hmem)
  · by_contra hheaders
    simp only [audioIsHeaders, Bool.not_eq_false, beq_iff_eq] at hheaders
    exact hne _ hmem hheaders

end Types

section Step

variable {s s' : State τ} {t : τ}

theorem inv_putVideo (h : Inv s) {b : Buf} {pc' pc'' : Pc} (hb : videoIsHeaders b.type = false)
    (hnone : (s.pc t).half = none) (hin : (s.pc t).inHeaders = false)
    (hhalf : pc'.half = some b.type) (hin' : pc'.inHeaders = false) (hin'' : pc''.inHeaders = false) :
    Inv ({ s with video := s.video.put b }.goto t (if s.has_audio_fifo then pc' else pc'')) where
  video_ordered := h.video_ordered.put b
  audio_ordered := h.audio_ordered
  headers := by
    refine (h.headers.tracks (Keeps.put hb) (Keeps.refl _ _)).goto hin ?_
    split <;> assumption
  balanced := fun hhas kind hkind => by
    change s.has_audio_fifo = true at hhas
    simp only [State.goto, hhas, if_true, total_put]
    exact (h.balanced hhas kind hkind).enter hnone hhalf

theorem inv_putAudio (h : Inv s) {b : Buf} {pc' : Pc} (hb : audioIsHeaders b.type = false)
    (hhalf : (s.pc t).half = some b.type) (hin : (s.pc t).inHeaders = false)
    (hnone : pc'.half = none) (hin' : pc'.inHeaders = false) :
    Inv ({ s with audio := s.audio.put b }.goto t pc') where
  video_ordered := h.video_ordered
  audio_ordered := h.audio_ordered.put b
  headers := (h.headers.tracks (Keeps.refl _ _) (Keeps.put hb)).goto hin hin'
  balanced := fun hhas kind hkind => by
    simp only [State.goto, total_put]
    exact (h.balanced hhas kind hkind).leave hhalf hnone

omit [DecidableEq τ] in
theorem inv_tracks (h : Inv s) {video audio : Track} (hvideo : video.Ordered) (haudio : audio.Ordered)
    (hkv : Keeps videoIsHeaders s.video video) (hka : Keeps audioIsHeaders s.audio audio)
    (htotal : ∀ kind ∈ markers, video.total kind = s.video.total kind ∧
      audio.total kind = s.audio.total kind) : Inv { s with video, audio } where
  video_ordered := hvideo
  audio_ordered := haudio
  headers := h.headers.tracks hkv hka
  balanced := fun hhas kind hkind => by
    rw [(htotal kind hkind).1, (htotal kind hkind).2]
    exact h.balanced hhas kind hkind

theorem inv_goto (h : Inv s) {pc' : Pc} (hin : (s.pc t).inHeaders = false)
    (hin' : pc'.inHeaders = false) (hhalf : pc'.half = (s.pc t).half) : Inv (s.goto t pc') where
  video_ordered := h.video_ordered
  audio_ordered := h.audio_ordered
  headers := h.headers.goto hin hin'
  balanced := fun hhas kind hkind => (h.balanced hhas kind hkind).goto hhalf

theorem inv_headers (h : Inv s) (hpc : s.pc t = .idle ∨ s.pc t = .flushHeaders)
    (hs : (if s.headers_caller.isNone ∧ s.counter_lock = false then
      some ({ s with counter_lock := true, headers_caller := some t }.goto t
        (.headersVideo (s.video.header_count + 1)
          (if s.has_audio_fifo then s.audio.header_count + 1 else 0))) else none) = some s') :
    Inv s' := by
  simp only [Option.ite_none_right_eq_some, Option.some.injEq, Option.isNone_iff_eq_none] at hs
  obtain ⟨⟨hcaller, -⟩, rfl⟩ := hs
  have hheaders := h.headers
  unfold HeadersInv at hheaders
  rw [hcaller] at hheaders
  obtain ⟨-, hvideo, haudio, hin⟩ := hheaders
  refine ⟨h.video_ordered, h.audio_ordered, ?_, fun hhas kind hkind => ?_⟩
  · refine HeadersInv.call (s := s) (fun u _ => hin u) rfl rfl ⟨rfl, ⟨hvideo, rfl⟩, ?_⟩
    cases s.has_audio_fifo with
    | true => exact .inl ⟨rfl, haudio, rfl⟩
    | false => exact .inr ⟨rfl, haudio, rfl⟩
  · refine (h.balanced hhas kind hkind).goto ?_
    rcases hpc with hpc | hpc
    all_goals
      rw [hpc]
      rfl

theorem inv_headersVideo {hv ha : ℕ} {old : ℤ} (h : Inv s) (hpc : s.pc t = .headersVideo hv ha) :
    Inv ({ s with video := s.video.put ⟨bufControlHeadersDone, 0, old⟩ }.goto t
      (if s.has_audio_fifo then .headersAudio hv ha s.video.puts
      else .headersCheck hv ha s.video.puts 0)) := by
  obtain ⟨hcaller, hother, hcall⟩ := h.headers.caller (t := t) (by rw [hpc]; rfl)
  rw [hpc] at hcall
  obtain ⟨hlock, hvideo, hside⟩ := hcall
  have hawaits := hvideo.put_header (b := ⟨bufControlHeadersDone, 0, old⟩) isHeaders_headersDone.1
  refine ⟨h.video_ordered.put _, h.audio_ordered, ?_, fun hhas kind hkind => ?_⟩
  · refine HeadersInv.call hother rfl hcaller ?_
    rcases hside with ⟨hhas, haudio⟩ | ⟨hhas, haudio, hzero⟩
    · rw [if_pos hhas]
      exact ⟨hlock, hawaits, hhas, haudio⟩
    · rw [if_neg (by simp [hhas])]
      exact ⟨hlock, hawaits, .inr ⟨hhas, haudio, hzero⟩⟩
  · change s.has_audio_fifo = true at hhas
    simp only [State.goto, hhas, if_true, total_put]
    exact (h.balanced hhas kind hkind).enter (by rw [hpc]; rfl) rfl

theorem inv_headersAudio {hv ha video : ℕ} {old : ℤ} (h : Inv s)
    (hpc : s.pc t = .headersAudio hv ha video) :
    Inv ({ s with audio := s.audio.put ⟨bufControlHeadersDone, 0, old⟩ }.goto t
      (.headersCheck hv ha video s.audio.puts)) := by
  obtain ⟨hcaller, hother, hcall⟩ := h.headers.caller (t := t) (by rw [hpc]; rfl)
  rw [hpc] at hcall
  obtain ⟨hlock, hvideo, hhas, haudio⟩ := hcall
  have hawaits := haudio.put_header (b := ⟨bufControlHeadersDone, 0, old⟩) isHeaders_headersDone.2
  refine ⟨h.video_ordered, h.audio_ordered.put _, ?_, fun hhas kind hkind => ?_⟩
  · exact HeadersInv.call hother rfl hcaller ⟨hlock, hvideo, .inl ⟨hhas, hawaits⟩⟩
  · simp only [State.goto, total_put]
    exact (h.balanced hhas kind hkind).leave (by rw [hpc]; rfl) rfl

theorem awaits_done {x : Track} {isHeaders : BitVec 32 → Bool} {m n : ℕ}
    (h : x.Awaits isHeaders m n) (hcount : ¬x.header_count < n) :
    x.headers isHeaders = [] ∧ ∀ i ∈ x.line, m < i.serial := by
  rcases h with ⟨-, hn⟩ | ⟨hnil, -, -, hafter⟩
  · omega
  · exact ⟨hnil, hafter⟩

theorem inv_headersCheck {hv ha video audio : ℕ} (h : Inv s)
    (hpc : s.pc t = .headersCheck hv ha video audio)
    (hs : (if s.audio.header_count < ha ∨ s.video.header_count < hv then
      some ({ s with counter_lock := false }.goto t (.headersWait hv ha video audio))
      else some ({ s with counter_lock := false, headers_caller := none }.goto t .idle)) = some s') :
    Inv s' := by
  obtain ⟨hcaller, hother, hcall⟩ := h.headers.caller (t := t) (by rw [hpc]; rfl)
  rw [hpc] at hcall
  obtain ⟨-, hvideo, hside⟩ := hcall
  by_cases hwait : s.audio.header_count < ha ∨ s.video.header_count < hv
  · rw [if_pos hwait] at hs
    cases hs
    refine ⟨h.video_ordered, h.audio_ordered, ?_, fun hhas kind hkind => ?_⟩
    · exact HeadersInv.call hother rfl hcaller ⟨rfl, hvideo, hside⟩
    · exact (h.balanced hhas kind hkind).goto (by rw [hpc]; rfl)
  · rw [if_neg hwait] at hs
    cases hs
    rw [not_or] at hwait
    refine ⟨h.video_ordered, h.audio_ordered, ⟨rfl, (awaits_done hvideo hwait.2).1, ?_, fun u => ?_⟩,
      fun hhas kind hkind => ?_⟩
    · rcases hside with ⟨-, haudio⟩ | ⟨-, hnil, -⟩
      · exact (awaits_done haudio hwait.1).1
      · exact hnil
    · by_cases hu : u = t
      · simp [State.goto, hu, Pc.inHeaders]
      · simp [State.goto, hu, hother u hu]
    · exact (h.balanced hhas kind hkind).goto (by rw [hpc]; rfl)

theorem inv_step {a : Action τ} (h : Inv s) (hs : step s a = some s') : Inv s' := by
  cases a with
  | helper t m old =>
    simp only [step] at hs
    split at hs
    · rename_i hpc
      cases hs
      obtain ⟨hvideo, -⟩ := m.isHeaders_type
      rw [← m.type_buf old] at hvideo
      refine inv_putVideo h hvideo (by rw [hpc]; rfl) (by rw [hpc]; rfl) ?_ rfl rfl
      rw [m.type_buf old]
      rfl
    · simp at hs
  | helperAudio t old =>
    simp only [step] at hs
    split at hs
    · rename_i m hpc
      cases hs
      obtain ⟨-, haudio⟩ := m.isHeaders_type
      rw [← m.type_buf old] at haudio
      refine inv_putAudio h haudio ?_ (by rw [hpc]; rfl) rfl rfl
      rw [hpc, m.type_buf old]
      rfl
    · simp at hs
  | flush t =>
    simp only [step] at hs
    split at hs
    · rename_i hpc
      cases hs
      have hclear : Inv { s with video := s.video.clear } :=
        inv_tracks h h.video_ordered.clear h.audio_ordered (Keeps.clear isControl_of_videoIsHeaders)
          (Keeps.refl _ _) fun kind hkind =>
            ⟨total_clear _ (isControl_of_mem_markers hkind), rfl⟩
      refine inv_goto hclear (by dsimp only; rw [hpc]; rfl) ?_ ?_
      · split <;> rfl
      · dsimp only
        rw [hpc]
        split <;> rfl
    · simp at hs
  | flushAudio t =>
    simp only [step] at hs
    split at hs
    · rename_i hpc
      cases hs
      have hclear : Inv { s with audio := s.audio.clear } :=
        inv_tracks h h.video_ordered h.audio_ordered.clear (Keeps.refl _ _)
          (Keeps.clear isControl_of_audioIsHeaders) fun kind hkind =>
            ⟨rfl, total_clear _ (isControl_of_mem_markers hkind)⟩
      exact inv_goto hclear (by dsimp only; rw [hpc]; rfl) rfl (by dsimp only; rw [hpc]; rfl)
    · simp at hs
  | flushReset t old =>
    simp only [step] at hs
    split at hs
    · rename_i hpc
      cases hs
      exact inv_putVideo h isHeaders_reset.1 (by rw [hpc]; rfl) (by rw [hpc]; rfl) rfl rfl rfl
    · simp at hs
  | flushResetAudio t old =>
    simp only [step] at hs
    split at hs
    · rename_i hpc
      cases hs
      exact inv_putAudio h isHeaders_reset.2 (by rw [hpc]; rfl) (by rw [hpc]; rfl) rfl rfl
    · simp at hs
  | headers t =>
    simp only [step] at hs
    split at hs
    · rename_i hpc
      exact inv_headers h (.inl hpc) hs
    · rename_i hpc
      exact inv_headers h (.inr hpc) hs
    · simp at hs
  | headersVideo t old =>
    simp only [step] at hs
    split at hs
    · rename_i hv ha hpc
      cases hs
      exact inv_headersVideo h hpc
    · simp at hs
  | headersAudio t old =>
    simp only [step] at hs
    split at hs
    · rename_i hv ha video hpc
      cases hs
      exact inv_headersAudio h hpc
    · simp at hs
  | headersCheck t =>
    simp only [step] at hs
    split at hs
    · rename_i hv ha video audio hpc
      exact inv_headersCheck h hpc hs
    · simp at hs
  | headersWake t =>
    simp only [step] at hs
    split at hs
    · rename_i hv ha video audio hpc
      simp only [Option.ite_none_left_eq_some, Option.some.injEq] at hs
      obtain ⟨-, rfl⟩ := hs
      obtain ⟨hcaller, hother, hcall⟩ := h.headers.caller (t := t) (by rw [hpc]; rfl)
      rw [hpc] at hcall
      refine ⟨h.video_ordered, h.audio_ordered, ?_, fun hhas kind hkind => ?_⟩
      · exact HeadersInv.call hother rfl hcaller ⟨rfl, hcall.2⟩
      · exact (h.balanced hhas kind hkind).goto (by rw [hpc]; rfl)
    · simp at hs
  | putVideo b =>
    simp only [step, Option.ite_none_left_eq_some, Option.some.injEq] at hs
    obtain ⟨hmask, rfl⟩ := hs
    obtain ⟨hvideo, -, hne⟩ := not_marker hmask
    refine inv_tracks h (h.video_ordered.put b) h.audio_ordered (Keeps.put hvideo) (Keeps.refl _ _)
      fun kind hkind => ⟨?_, rfl⟩
    rw [total_put, if_neg (hne kind hkind), Nat.add_zero]
  | putAudio b =>
    simp only [step, Option.ite_none_left_eq_some, Option.some.injEq, not_or] at hs
    obtain ⟨⟨hmask, -⟩, rfl⟩ := hs
    obtain ⟨-, haudio, hne⟩ := not_marker hmask
    refine inv_tracks h h.video_ordered (h.audio_ordered.put b) (Keeps.refl _ _) (Keeps.put haudio)
      fun kind hkind => ⟨rfl, ?_⟩
    rw [total_put, if_neg (hne kind hkind), Nat.add_zero]
  | videoGet =>
    obtain ⟨video, hv, rfl⟩ := Option.map_eq_some_iff.1 hs
    exact inv_tracks h (h.video_ordered.get hv) h.audio_ordered (Keeps.get hv) (Keeps.refl _ _)
      fun kind _ => ⟨total_get hv kind, rfl⟩
  | videoHandle =>
    obtain ⟨video, hv, rfl⟩ := Option.map_eq_some_iff.1 hs
    exact inv_tracks h (h.video_ordered.handle hv) h.audio_ordered (Keeps.handle h.video_ordered hv)
      (Keeps.refl _ _) fun kind _ => ⟨total_handle hv kind, rfl⟩
  | audioGet =>
    obtain ⟨audio, ha, rfl⟩ := Option.map_eq_some_iff.1 hs
    exact inv_tracks h h.video_ordered (h.audio_ordered.get ha) (Keeps.refl _ _) (Keeps.get ha)
      fun kind _ => ⟨rfl, total_get ha kind⟩
  | audioHandle =>
    obtain ⟨audio, ha, rfl⟩ := Option.map_eq_some_iff.1 hs
    exact inv_tracks h h.video_ordered (h.audio_ordered.handle ha) (Keeps.refl _ _)
      (Keeps.handle h.audio_ordered ha) fun kind _ => ⟨rfl, total_handle ha kind⟩

omit [DecidableEq τ] in
theorem init_inv (has_audio_fifo : Bool) : Inv (init has_audio_fifo : State τ) where
  video_ordered := ordered_empty
  audio_ordered := ordered_empty
  headers := ⟨rfl, rfl, rfl, fun _ => rfl⟩
  balanced := fun _ _ _ => ⟨∅, by simp [init, Pc.half], rfl⟩

theorem inv_run {as : List (Action τ)} (h : Inv s) (hrun : Runs.run step s as = some s') : Inv s' :=
  Runs.run_invariant (fun _ _ _ hinv hstep => inv_step hinv hstep) h hrun

end Step

/-! ## Every interleaving -/

/-- Over every interleaving of threads in the helpers and in the flush with the two decoders: when no
thread is half way with a marker, as many of them are handled or pending on the video side as on the
audio side; and when `headers_done` returns, both decoders have finished with everything that was put
before its markers, `video` and `audio`, and that no flush has removed. -/
theorem markers_run_balanced {has_audio_fifo : Bool} {s : State τ} {as : List (Action τ)}
    (hrun : Runs.run step (init has_audio_fifo) as = some s) :
    (s.has_audio_fifo = true → ∀ kind ∈ markers, (∀ t, (s.pc t).half ≠ some kind) →
      s.video.total kind = s.audio.total kind) ∧
    ∀ t s' hv ha video audio, s.pc t = .headersCheck hv ha video audio →
      step s (.headersCheck t) = some s' → s'.pc t = .idle →
      (∀ i ∈ s.video.line, video < i.serial) ∧
        (s.has_audio_fifo = true → ∀ i ∈ s.audio.line, audio < i.serial) := by
  have h := inv_run (init_inv has_audio_fifo) hrun
  refine ⟨fun hhas kind hkind hhalf => ?_, fun t s' hv ha video audio hpc hs hidle => ?_⟩
  · obtain ⟨ts, hts, hcard⟩ := h.balanced hhas kind hkind
    obtain rfl : ts = ∅ := Finset.eq_empty_of_forall_notMem fun t ht => hhalf t ((hts t).1 ht)
    exact hcard
  · obtain ⟨-, -, hcall⟩ := h.headers.caller (t := t) (by rw [hpc]; rfl)
    rw [hpc] at hcall
    obtain ⟨-, hvideo, hside⟩ := hcall
    have hdone : ¬(s.audio.header_count < ha ∨ s.video.header_count < hv) := by
      intro hwait
      simp only [step, hpc, if_pos hwait] at hs
      cases hs
      simp [State.goto] at hidle
    rw [not_or] at hdone
    refine ⟨(awaits_done hvideo hdone.2).2, fun hhas => ?_⟩
    rcases hside with ⟨-, haudio⟩ | ⟨hno, -⟩
    · exact (awaits_done haudio hdone.1).2
    · simp [hhas] at hno

/-- A demuxer starts a stream while another thread flushes the engine. -/
theorem markers_run_balanced_flush : ∃ s : State Bool,
    Runs.run step (init true) [.putVideo ⟨0x02000000#32, 0, 0⟩, .helper false .start 0, .flush true,
      .flushAudio true, .flushReset true 0, .flushResetAudio true 0, .headers true,
      .headersVideo true 0, .headersAudio true 0, .headersCheck true, .helperAudio false 0, .videoGet,
      .videoHandle, .videoGet, .videoHandle, .videoGet, .videoHandle, .audioGet, .audioHandle,
      .audioGet, .audioHandle, .headersWake true, .headersCheck true] = some s ∧
      s.video.total bufControlStart = s.audio.total bufControlStart := by
  have hsome : (Runs.run step (init true : State Bool) [.putVideo ⟨0x02000000#32, 0, 0⟩,
      .helper false .start 0, .flush true, .flushAudio true, .flushReset true 0,
      .flushResetAudio true 0, .headers true, .headersVideo true 0, .headersAudio true 0,
      .headersCheck true, .helperAudio false 0, .videoGet, .videoHandle, .videoGet, .videoHandle,
      .videoGet, .videoHandle, .audioGet, .audioHandle, .audioGet, .audioHandle, .headersWake true,
      .headersCheck true]).any fun s =>
        s.has_audio_fifo && decide (∀ t, (s.pc t).half ≠ some bufControlStart) := by
    decide
  obtain ⟨s, hrun, hs⟩ := (Option.any_eq_true _ _).1 hsome
  simp only [Bool.and_eq_true, decide_eq_true_eq] at hs
  obtain ⟨hbalanced, -⟩ := markers_run_balanced hrun
  exact ⟨s, hrun, hbalanced hs.1 _ (by simp [markers]) hs.2⟩

end Xine.Demux
