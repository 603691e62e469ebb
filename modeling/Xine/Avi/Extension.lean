import Xine.Avi.Growth
import Xine.Avi.Reader
import Xine.Library.Walks

/-!
# What `idx_grow` leaves as it is

A call of `idx_grow` adds to the ends of the indexes and to nothing else of them, and it comes to the same
result whenever there are rounds enough.
-/

namespace Xine.Avi

open Fuel

variable {d d' e : DemuxAvi} {stopper : DemuxAvi → ℤ} {savepos cur retval : ℤ} {rounds track : ℕ}

/-- The indexes are longer, and the streams are the same. -/
structure DemuxAvi.Extends (d d' : DemuxAvi) : Prop where
  vindex : d.vindex <+: d'.vindex
  length_audio : d'.audio.length = d.audio.length
  aindex : ∀ track, d.aindex track <+: d'.aindex track
  align : ∀ track, d'.align track = d.align track

namespace DemuxAvi.Extends

theorem of_eq (hvindex : d'.vindex = d.vindex) (haudio : d'.audio = d.audio) : d.Extends d' := by
  refine ⟨hvindex ▸ List.prefix_rfl, congrArg List.length haudio, fun track => ?_, fun track => ?_⟩
  · have haindex : d'.aindex track = d.aindex track := by
      unfold DemuxAvi.aindex
      rw [haudio]
    exact haindex ▸ List.prefix_rfl
  · unfold DemuxAvi.align
    rw [haudio]

theorem refl (d : DemuxAvi) : d.Extends d := of_eq rfl rfl

theorem trans (h : d.Extends d') (h' : d'.Extends e) : d.Extends e where
  vindex := h.vindex.trans h'.vindex
  length_audio := h'.length_audio.trans h.length_audio
  aindex track := (h.aindex track).trans (h'.aindex track)
  align track := (h'.align track).trans (h.align track)

end DemuxAvi.Extends

theorem growVideo_extends {data : List Byte} {n : ℤ} (h : d.growVideo data cur n = some d') :
    d.vindex <+: d'.vindex ∧ d'.audio = d.audio := by
  unfold DemuxAvi.growVideo at h
  dsimp only at h
  split_ifs at h
  · cases h
    exact ⟨List.prefix_append _ _, rfl⟩
  · cases h
    exact ⟨List.prefix_append _ _, rfl⟩
  · cases h
    exact ⟨List.prefix_rfl, rfl⟩

theorem AviAudio.grow_extends (audio : AviAudio) (data : List Byte) (cur n : ℤ) :
    audio.aindex <+: (audio.grow data cur n).aindex ∧ (audio.grow data cur n).nBlockAlign = audio.nBlockAlign := by
  unfold AviAudio.grow
  split_ifs
  · exact ⟨List.prefix_append _ _, rfl⟩
  · exact ⟨List.prefix_rfl, rfl⟩

theorem extends_map {data : List Byte} {n : ℤ} (hvindex : d.vindex <+: d'.vindex)
    (haudio : d'.audio = d.audio.map fun audio : AviAudio => audio.grow data cur n) : d.Extends d' := by
  refine ⟨hvindex, by rw [haudio, List.length_map], fun track => ?_, fun track => ?_⟩
  · unfold DemuxAvi.aindex
    rw [haudio, List.getElem?_map]
    cases d.audio[track]? with
    | none => exact List.prefix_rfl
    | some audio => exact (audio.grow_extends data cur n).1
  · unfold DemuxAvi.align
    rw [haudio, List.getElem?_map]
    cases d.audio[track]? with
    | none => rfl
    | some audio => exact congrArg (Option.getD · 0) (audio.grow_extends data cur n).2

theorem idxGrowRound_extends (d : DemuxAvi) (cur : ℤ) : d.Extends (idxGrowRound d cur).1 := by
  unfold idxGrowRound
  dsimp only
  split_ifs
  · exact .of_eq rfl rfl
  · exact .of_eq rfl rfl
  · split
    · exact .of_eq rfl rfl
    · rename_i hgrow
      obtain ⟨hvindex, haudio⟩ := growVideo_extends hgrow
      exact extends_map hvindex (by dsimp only; rw [haudio])

theorem idxGrowLoop_extends (h : idxGrowLoop stopper savepos rounds d cur = some (retval, d')) :
    d.Extends d' := by
  induction rounds generalizing d cur with
  | zero => exact absurd h.symm (Option.some_ne_none _)
  | succ rounds ih =>
    have hround := idxGrowRound_extends d cur
    unfold idxGrowLoop at h
    dsimp only at h
    split_ifs at h
    · split at h
      · rename_i hnext
        rw [hnext] at hround
        exact hround.trans (ih h)
      · rename_i hnext
        rw [hnext] at hround
        obtain ⟨-, rfl⟩ := Prod.mk.inj (Option.some.inj h)
        exact hround.trans (.of_eq rfl rfl)
    · obtain ⟨-, rfl⟩ := Prod.mk.inj (Option.some.inj h)
      exact .of_eq rfl rfl

theorem idxGrow_extends (h : idxGrow stopper rounds d = some (retval, d')) : d.Extends d' := by
  have hstart : d.Extends { d with input := (d.input.seek d.nexttagoffset).2 } := .of_eq rfl rfl
  exact hstart.trans (idxGrowLoop_extends h)

theorem idxGrowLoop_stable (stopper : DemuxAvi → ℤ) (savepos : ℤ) (d : DemuxAvi) (cur : ℤ) :
    Stable fun rounds => idxGrowLoop stopper savepos rounds d cur := by
  intro n result hn fuel hle
  induction n generalizing fuel d cur with
  | zero => exact absurd hn.symm (Option.some_ne_none _)
  | succ n ih =>
    obtain ⟨fuel, rfl⟩ : ∃ k, fuel = k + 1 := ⟨fuel - 1, by omega⟩
    unfold idxGrowLoop at hn ⊢
    dsimp only at hn ⊢
    split_ifs at hn ⊢
    · cases hround : idxGrowRound d cur with
      | mk next offset =>
        rw [hround] at hn
        cases offset with
        | none => exact hn
        | some cur => exact ih next cur hn fuel (Nat.le_of_succ_le_succ hle)
    · exact hn

theorem idxGrow_stable (stopper : DemuxAvi → ℤ) (d : DemuxAvi) :
    Stable fun rounds => idxGrow stopper rounds d :=
  idxGrowLoop_stable stopper _ _ _

end Xine.Avi
