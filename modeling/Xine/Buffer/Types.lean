import Mathlib.Data.BitVec
import Mathlib.Data.List.Induction

/-!
# Buffer types

`buffer_types.c`: a lookup keeps what it found last in static variables, that of an audio tag only 16 bits of the tag.
-/

namespace Xine.BufferTypes

/-- `video_db_t` and `audio_db_t`, up to the 0 behind the tags. -/
structure DbEntry where
  tags : List (BitVec 32)
  ends : 0 ∉ tags
  buf_type : BitVec 32

/-- `cached_fourcc` or `cached_formattag`, and `cached_buf_type`. -/
structure Cache (w : ℕ) where
  tag : BitVec w
  buf_type : BitVec 32

variable {w : ℕ} {db : List DbEntry} {tag : BitVec 32} {tags : List (BitVec 32)}

/-- The two loops. -/
def search (db : List DbEntry) (tag : BitVec 32) : Option (BitVec 32) :=
  (db.find? fun e => e.tags.contains tag).map DbEntry.buf_type

def lookup (db : List DbEntry) (cache : Cache w) (tag : BitVec 32) : BitVec 32 × Cache w :=
  if tag = cache.tag.setWidth 32 then (cache.buf_type, cache)
  else (search db tag).elim (0, cache) fun buf_type => (buf_type, ⟨tag.setWidth w, buf_type⟩)

def fourccToBufVideo : List DbEntry → Cache 32 → BitVec 32 → BitVec 32 × Cache 32 := lookup

def formattagToBufAudio : List DbEntry → Cache 16 → BitVec 32 → BitVec 32 × Cache 16 := lookup

/-- The static variables after some calls. -/
def after (w : ℕ) (db : List DbEntry) (tags : List (BitVec 32)) : Cache w :=
  tags.foldl (fun cache tag => (lookup db cache tag).2) ⟨0, 0⟩

/-- What is kept is of a tag that was looked up before, or of 0. -/
theorem exists_after : ∃ old ∈ 0 :: tags, after w db tags = ⟨old.setWidth w, (search db old).getD 0⟩ := by
  induction tags using List.reverseRecOn with
  | nil =>
    refine ⟨0, List.mem_singleton_self 0, ?_⟩
    rw [search, List.find?_eq_none.2 fun e _ => by simpa using e.ends]
    simp [after]
  | append_singleton tags tag ih =>
    obtain ⟨old, hmem, heq⟩ := ih
    have hkept : ∃ old ∈ 0 :: (tags ++ [tag]), after w db tags = ⟨old.setWidth w, (search db old).getD 0⟩ :=
      ⟨old, List.mem_append_left [tag] hmem, heq⟩
    rw [after, List.foldl_append, List.foldl_cons, List.foldl_nil, ← after, lookup]
    split
    · exact hkept
    · cases hfound : search db tag with
      | none => exact hkept
      | some buf_type => exact ⟨tag, by simp, by rw [hfound]; rfl⟩

theorem lookup_after (h : ∀ old ∈ 0 :: tags, tag = (old.setWidth w).setWidth 32 → old = tag) :
    (lookup db (after w db tags) tag).1 = (search db tag).getD 0 := by
  obtain ⟨old, hmem, heq⟩ := exists_after
  rw [heq, lookup]
  split
  · next htag => rw [h old hmem htag]
  · cases search db tag <;> rfl

/-- After any calls, a lookup of a video tag gives the type in the table. That of an audio tag does unless it is the low half
of a longer tag before; right behind such a tag of the table it gives the type of that one. -/
theorem lookups_cached (videoDb audioDb : List DbEntry) (tags : List (BitVec 32)) (tag : BitVec 32) :
    (fourccToBufVideo videoDb (after 32 videoDb tags) tag).1 = (search videoDb tag).getD 0 ∧
      ((∀ old ∈ tags, 2^16 ≤ old.toNat → tag.toNat ≠ old.toNat % 2^16) →
        (formattagToBufAudio audioDb (after 16 audioDb tags) tag).1 = (search audioDb tag).getD 0) ∧
      ∀ old buf_type, search audioDb old = some buf_type → 2^16 ≤ old.toNat → tag.toNat = old.toNat % 2^16 →
        (formattagToBufAudio audioDb (after 16 audioDb (tags ++ [old])) tag).1 = buf_type := by
  refine ⟨lookup_after fun old _ h => by simpa using h.symm, fun h => lookup_after fun old hmem htag => ?_,
    fun old buf_type hfound hlong hlow => ?_⟩
  · have hlow : tag.toNat = old.toNat % 2^16 := by rw [htag]; simp; omega
    apply BitVec.eq_of_toNat_eq
    rcases List.mem_cons.1 hmem with rfl | hmem
    · exact hlow.symm
    · have := mt (h old hmem) (not_not.2 hlow)
      omega
  · have hne : old ≠ (after 16 audioDb tags).tag.setWidth 32 := fun h => by
      have hlt := (after 16 audioDb tags).tag.isLt
      rw [h, BitVec.toNat_setWidth] at hlong
      omega
    have htag : tag = (old.setWidth 16).setWidth 32 := BitVec.eq_of_toNat_eq (by simp [hlow]; omega)
    rw [after, List.foldl_append, List.foldl_cons, List.foldl_nil, ← after, lookup, if_neg hne, hfound, Option.elim_some,
      formattagToBufAudio, lookup, if_pos htag]

end Xine.BufferTypes
