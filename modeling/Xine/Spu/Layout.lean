import Mathlib.Data.List.TakeWhile
import Mathlib.Data.Nat.Bitwise
import Mathlib.Tactic.Ring
import Xine.Spu.Commands

/-!
# The codes of a picture

Where the codes of a picture are, from the pixel data alone, and the runs that `spudec_draw_picture` writes and
the offsets it reads, which are those of these codes. A place in the pixel data is a number of half bytes.
-/

namespace Xine.Spu

open Octets

/-! ## Codes and lines in the pixel data -/

/-- The four bits at a place. -/
def nibble (mem : ℕ → Byte) (n : ℕ) : ℕ :=
  if n % 2 = 0 then (mem (n / 2)).toNat / 16 else (mem (n / 2)).toNat % 16

/-- The bits of the code at a place, and how many half bytes it has: a code with too small a value goes
on. -/
def rleCode (mem : ℕ → Byte) (n : ℕ) : ℕ × ℕ :=
  let a := nibble mem n
  let b := 16 * a + nibble mem (n + 1)
  let c := 16 * b + nibble mem (n + 2)
  if 4 ≤ a then (a, 1)
  else if 16 ≤ b then (b, 2)
  else if 64 ≤ c then (c, 3)
  else (16 * c + nibble mem (n + 3), 4)

/-- The code that the bit reader finds at a place, with what it has left of the byte before. Bits that
are left are put before those of the first half byte, and the code ends there. -/
def vlcAt (mem : ℕ → Byte) (left n : ℕ) : ℕ × ℕ :=
  if left = 0 then rleCode mem n else (16 * left + nibble mem n, 1)

/-- A run in the pixel data: its place, the place behind it, and what it says. -/
structure Code where
  start : ℕ
  stop : ℕ
  len : ℤ
  color : ℕ

/-- The code at a place of a line, when the pixels before `x` have been drawn. A run of no length goes
to the end of the line. -/
def codeAt (mem : ℕ → Byte) (width : ℤ) (left n : ℕ) (x : ℤ) : Code where
  start := n
  stop := n + (vlcAt mem left n).2
  len := if (vlcAt mem left n).1 / 4 = 0 then width - x else ((vlcAt mem left n).1 / 4 : ℕ)
  color := (vlcAt mem left n).1 % 4

/-- The run that is written for a code. -/
def Code.run (c : Code) : RleElem := { len := (c.len % 65536).toNat, color := c.color }

/-- The bytes that are fetched from one place to another. -/
def bytesBetween (n n' : ℕ) : List ℕ := List.range' ((n + 1) / 2) ((n' + 1) / 2 - (n + 1) / 2)

/-- The bytes that are fetched for a code. -/
def Code.bytes (c : Code) : List ℕ := bytesBetween c.start c.stop

/-- The codes of a line from `x` on. -/
def lineCodes (mem : ℕ → Byte) (width : ℤ) : ℕ → ℕ → ℕ → ℤ → List Code
  | 0, _, _, _ => []
  | fuel + 1, left, n, x =>
    let c := codeAt mem width left n x
    c :: if width ≤ x + c.len then [] else lineCodes mem width fuel 0 c.stop (x + c.len)

/-! ## The bit reader -/

variable {mem : ℕ → Byte} {d : Drawing} {left n n' : ℕ}

/-- The pointer of the field that is decoded. -/
def Drawing.ptr (d : Drawing) : ℕ := if d.field then d.bit_ptr.2 else d.bit_ptr.1

/-- The pointers, when the field that is decoded is at a byte. -/
def Drawing.moved (d : Drawing) (offset : ℕ) : ℕ × ℕ :=
  if d.field then (d.bit_ptr.1, offset) else (offset, d.bit_ptr.2)

/-- The bit reader is at a place: at a byte, perhaps with bits of another byte left, or in the middle
of a byte. -/
structure Drawing.At (mem : ℕ → Byte) (d : Drawing) (left n : ℕ) : Prop where
  ptr : d.ptr = (n + 1) / 2
  bits_left : d.bits_left = if n % 2 = 0 then 0 else 4
  data : d.data = if n % 2 = 0 then left else nibble mem n
  left_zero : n % 2 ≠ 0 → left = 0
  left_lt : left < 16

/-- The drawing when the bit reader has gone from one place to another. -/
def Drawing.sought (mem : ℕ → Byte) (d : Drawing) (n n' : ℕ) : Drawing :=
  { d with
    bit_ptr := d.moved ((n' + 1) / 2)
    data := if n' % 2 = 0 then 0 else nibble mem n'
    bits_left := if n' % 2 = 0 then 0 else 4
    reads := d.reads ++ bytesBetween n n' }

theorem nibble_lt (mem : ℕ → Byte) (n : ℕ) : nibble mem n < 16 := by
  have := (mem (n / 2)).isLt
  unfold nibble
  split <;> omega

theorem Drawing.at_sought (mem : ℕ → Byte) (d : Drawing) (n n' : ℕ) :
    (d.sought mem n n').At mem 0 n' where
  ptr := by
    unfold Drawing.sought Drawing.moved Drawing.ptr
    dsimp only
    split <;> rfl
  bits_left := rfl
  data := rfl
  left_zero := fun _ => rfl
  left_lt := by omega

theorem bytesBetween_append {n₀ n₁ n₂ : ℕ} (h₁ : n₀ ≤ n₁) (h₂ : n₁ ≤ n₂) :
    bytesBetween n₀ n₁ ++ bytesBetween n₁ n₂ = bytesBetween n₀ n₂ := by
  unfold bytesBetween
  have hmid : (n₁ + 1) / 2 = (n₀ + 1) / 2 + 1 * ((n₁ + 1) / 2 - (n₀ + 1) / 2) := by omega
  rw [show List.range' ((n₁ + 1) / 2) ((n₂ + 1) / 2 - (n₁ + 1) / 2) =
    List.range' ((n₀ + 1) / 2 + 1 * ((n₁ + 1) / 2 - (n₀ + 1) / 2))
      ((n₂ + 1) / 2 - (n₁ + 1) / 2) by rw [← hmid], List.range'_append]
  congr 1
  omega

theorem Drawing.sought_sought {n₀ n₁ n₂ : ℕ} (h₁ : n₀ ≤ n₁) (h₂ : n₁ ≤ n₂) :
    (d.sought mem n₀ n₁).sought mem n₁ n₂ = d.sought mem n₀ n₂ := by
  unfold Drawing.sought Drawing.moved
  dsimp only
  rw [List.append_assoc, bytesBetween_append h₁ h₂]
  split <;> rfl

theorem shiftLeft_or_eq {a b : ℕ} (hb : b < 16) : a <<< 4 ||| b = 16 * a + b := by
  rw [← Nat.shiftLeft_add_eq_or_of_lt hb, Nat.shiftLeft_eq]
  omega

theorem Drawing.getBits_even (hn : n % 2 = 0) (h : d.At mem left n) :
    d.getBits mem 4 = (16 * left + nibble mem n, d.sought mem n (n + 1)) := by
  obtain ⟨⟨top, bottom⟩, field, put_x, put_y, data, bits_left, rle, reads⟩ := d
  obtain rfl : bits_left = 0 := h.bits_left.trans (if_pos hn)
  obtain rfl : data = left := h.data.trans (if_pos hn)
  have hptr := h.ptr
  have hbyte := (mem (n / 2)).isLt
  have hhalf : (n + 1) / 2 = n / 2 := by omega
  have hmod : ¬(n + 1) % 2 = 0 := by omega
  rw [hhalf] at hptr
  unfold Drawing.ptr at hptr
  have hret : data <<< 4 ||| (mem (n / 2)).toNat >>> 4 = 16 * data + nibble mem n := by
    rw [nibble, if_pos hn, Nat.shiftRight_eq_div_pow]
    exact shiftLeft_or_eq (by omega)
  have hrest : (mem (n / 2)).toNat &&& 15 = nibble mem (n + 1) := by
    rw [nibble, if_neg hmod, hhalf]
    exact Nat.and_two_pow_sub_one_eq_mod _ 4
  have hreads : bytesBetween n (n + 1) = [n / 2] := by
    unfold bytesBetween
    rw [hhalf, show (n + 1 + 1) / 2 - n / 2 = 1 by omega]
    rfl
  have hnext : (n + 1 + 1) / 2 = n / 2 + 1 := by omega
  unfold Drawing.getBits Drawing.sought Drawing.moved
  rw [hreads, hnext]
  cases field
  all_goals
    subst hptr
    simp [Drawing.getBitsLoop, Drawing.fetch, hret, hrest, hmod]

theorem Drawing.getBits_odd (hn : n % 2 ≠ 0) (h : d.At mem left n) :
    d.getBits mem 4 = (nibble mem n, d.sought mem n (n + 1)) := by
  have hbits : d.bits_left = 4 := by rw [h.bits_left, if_neg hn]
  have hdata : d.data = nibble mem n := by rw [h.data, if_neg hn]
  have hptr := h.ptr
  have hmod : (n + 1) % 2 = 0 := by omega
  have hreads : bytesBetween n (n + 1) = [] := by
    unfold bytesBetween
    rw [show (n + 1 + 1) / 2 - (n + 1) / 2 = 0 by omega]
    rfl
  have hnext : (n + 1 + 1) / 2 = (n + 1) / 2 := by omega
  have hmoved : d.moved ((n + 1) / 2) = d.bit_ptr := by
    rw [← hptr]
    unfold Drawing.moved Drawing.ptr
    split <;> rfl
  unfold Drawing.getBits Drawing.sought
  rw [hnext, hmoved, hreads]
  simp [Drawing.getBitsLoop, hbits, hdata, hmod]

theorem Drawing.getBits_four (h : d.At mem left n) :
    d.getBits mem 4 = (16 * left + nibble mem n, d.sought mem n (n + 1)) := by
  by_cases hn : n % 2 = 0
  · exact Drawing.getBits_even hn h
  · rw [Drawing.getBits_odd hn h, h.left_zero hn, Nat.mul_zero, Nat.zero_add]

theorem Drawing.getBits_sought (d : Drawing) {n₀ n₁ : ℕ} (hle : n₀ ≤ n₁) :
    (d.sought mem n₀ n₁).getBits mem 4 = (nibble mem n₁, d.sought mem n₀ (n₁ + 1)) := by
  rw [Drawing.getBits_four (d.at_sought mem n₀ n₁), Nat.mul_zero, Nat.zero_add,
    Drawing.sought_sought hle (Nat.le_succ n₁)]

theorem Drawing.vlc_eq (h : d.At mem left n) :
    d.vlc mem = ((vlcAt mem left n).1, d.sought mem n (n + (vlcAt mem left n).2)) := by
  have hor : ∀ a m, a <<< 4 ||| nibble mem m = 16 * a + nibble mem m :=
    fun a m => shiftLeft_or_eq (nibble_lt mem m)
  unfold Drawing.vlc
  rw [Drawing.getBits_four h]
  dsimp only
  by_cases hleft : left = 0
  · subst hleft
    rw [Nat.mul_zero, Nat.zero_add, Drawing.getBits_sought d (Nat.le_add_right n 1)]
    dsimp only
    rw [Drawing.getBits_sought d (Nat.le_add_right n 2)]
    dsimp only
    rw [Drawing.getBits_sought d (Nat.le_add_right n 3)]
    dsimp only
    unfold vlcAt rleCode
    simp only [if_true, hor]
    -- the tests of the code are those of the table the other way round
    split_ifs <;> first | rfl | omega
  · -- a first half byte with bits before it is never too small
    rw [if_neg (by omega)]
    unfold vlcAt
    rw [if_neg hleft]

theorem vlcAt_snd_pos (mem : ℕ → Byte) (left n : ℕ) : 0 < (vlcAt mem left n).2 := by
  unfold vlcAt rleCode
  dsimp only
  split_ifs <;> exact Nat.succ_pos _

/-- The drawing when a code has been drawn. -/
def Drawing.drawn (mem : ℕ → Byte) (d : Drawing) (c : Code) : Drawing :=
  { d.sought mem c.start c.stop with
    rle := d.rle ++ [c.run]
    put_x := d.put_x + c.len }

theorem Drawing.run_eq (width height : ℤ) (h : d.At mem left n) :
    d.run mem width height =
      if width ≤ d.put_x + (codeAt mem width left n d.put_x).len then
        (d.drawn mem (codeAt mem width left n d.put_x)).nextLine mem height
      else
        (false, d.drawn mem (codeAt mem width left n d.put_x)) := by
  have hlen : ∀ vlc : ℕ, vlc >>> 2 = vlc / 4 := fun vlc => Nat.shiftRight_eq_div_pow vlc 2
  have hcolor : ∀ vlc : ℕ, vlc &&& 0x03 = vlc % 4 := fun vlc => Nat.and_two_pow_sub_one_eq_mod vlc 2
  unfold Drawing.run
  rw [Drawing.vlc_eq h]
  simp only [hlen, hcolor]
  rfl

/-- The drawing at the next line: the bits that are left of the last byte are still there. -/
def Drawing.lineEnd (d : Drawing) : Drawing :=
  { d with bits_left := 0, put_x := 0, put_y := d.put_y + 1, field := !d.field }

theorem Drawing.nextLine_eq (mem : ℕ → Byte) (height : ℤ) (d : Drawing) :
    d.nextLine mem height = (decide (height ≤ d.put_y + 1), d.lineEnd) := rfl

/-! ## The lines of a picture -/

/-- Where a line begins: the bytes of the two fields, and the bits that the bit reader has left. -/
structure Line where
  y : ℕ
  top : ℕ
  bottom : ℕ
  left : ℕ

/-- Whether the line is in the field `1`. -/
def Line.odd (line : Line) : Bool := decide (line.y % 2 = 1)

/-- Where the codes of a line begin. -/
def Line.place (line : Line) : ℕ := 2 * if line.odd then line.bottom else line.top

/-- The codes of a line. -/
def Line.codes (mem : ℕ → Byte) (width : ℤ) (line : Line) : List Code :=
  lineCodes mem width (width.toNat + 1) line.left line.place 0

/-- The place behind the codes of a line. -/
def Line.stop (mem : ℕ → Byte) (width : ℤ) (line : Line) : ℕ :=
  ((line.codes mem width).getLast?.map Code.stop).getD line.place

/-- The line behind a line: it begins with a byte of its own. Half a byte that is over is still in the
bit reader. -/
def Line.next (mem : ℕ → Byte) (width : ℤ) (line : Line) : Line where
  y := line.y + 1
  top := if line.odd then line.top else (line.stop mem width + 1) / 2
  bottom := if line.odd then (line.stop mem width + 1) / 2 else line.bottom
  left := if line.stop mem width % 2 = 0 then 0 else nibble mem (line.stop mem width)

/-- The codes of a line that are drawn: in the field `1` only those that are met before the offset of
the commands. -/
def Line.drawn (mem : ℕ → Byte) (width : ℤ) (cmd_offs : ℕ) (line : Line) : List Code :=
  if line.odd then (line.codes mem width).takeWhile fun c => decide ((c.start + 1) / 2 < cmd_offs)
  else line.codes mem width

/-- The lines that are drawn, from a line on: those before the height of the picture, as long as the
field `1` is before the offset of the commands. -/
def linesFrom (picture : Picture) : ℕ → Line → List Line
  | 0, _ => []
  | fuel + 1, line =>
    if line.bottom < picture.cmd_offs then
      line :: if picture.height ≤ line.y + 1 then []
        else linesFrom picture fuel (line.next picture.mem picture.width)
    else
      []

/-- The lines of a picture that are drawn. -/
def Picture.lines (picture : Picture) : List Line :=
  linesFrom picture (2 * picture.cmd_offs + 2)
    { y := 0, top := picture.field_offs.1, bottom := picture.field_offs.2, left := picture.data }

/-- The codes of a picture that are drawn. -/
def Picture.codes (picture : Picture) : List Code :=
  picture.lines.flatMap (Line.drawn picture.mem picture.width picture.cmd_offs)

/-! ## A line -/

theorem Drawing.at_drawn (mem : ℕ → Byte) (d : Drawing) (c : Code) : (d.drawn mem c).At mem 0 c.stop :=
  let h := d.at_sought mem c.start c.stop
  ⟨h.ptr, h.bits_left, h.data, h.left_zero, h.left_lt⟩

/-- The drawing when some codes have been drawn. -/
def Drawing.drawnAll (mem : ℕ → Byte) (d : Drawing) (codes : List Code) : Drawing :=
  codes.foldl (Drawing.drawn mem) d

theorem Drawing.drawnAll_cons (mem : ℕ → Byte) (d : Drawing) (c : Code) (codes : List Code) :
    d.drawnAll mem (c :: codes) = (d.drawn mem c).drawnAll mem codes := rfl

theorem Drawing.drawnAll_fields (mem : ℕ → Byte) (codes : List Code) (d : Drawing) :
    (d.drawnAll mem codes).rle = d.rle ++ codes.map Code.run ∧
      (d.drawnAll mem codes).reads = d.reads ++ codes.flatMap Code.bytes ∧
      (d.drawnAll mem codes).field = d.field ∧ (d.drawnAll mem codes).put_y = d.put_y := by
  induction codes generalizing d with
  | nil => exact ⟨(List.append_nil _).symm, (List.append_nil _).symm, rfl, rfl⟩
  | cons c codes ih =>
    rw [Drawing.drawnAll_cons]
    obtain ⟨hrle, hreads, hfield, hput_y⟩ := ih (d.drawn mem c)
    refine ⟨?_, ?_, hfield, hput_y⟩
    · rw [hrle, List.map_cons]
      exact List.append_assoc _ _ _
    · rw [hreads, List.flatMap_cons]
      exact List.append_assoc _ _ _

theorem lineCodes_mem {width : ℤ} (fuel : ℕ) :
    ∀ {left n : ℕ} {x : ℤ} {c : Code}, c ∈ lineCodes mem width fuel left n x →
      n ≤ c.start ∧ c.start < c.stop ∧
        ∃ last, (lineCodes mem width fuel left n x).getLast? = some last ∧ c.stop ≤ last.stop := by
  induction fuel with
  | zero => exact fun hc => absurd hc List.not_mem_nil
  | succ fuel ih =>
    intro left n x c hc
    have hpos := vlcAt_snd_pos mem left n
    have hstart : (codeAt mem width left n x).start = n := rfl
    have hstop : (codeAt mem width left n x).stop = n + (vlcAt mem left n).2 := rfl
    rw [lineCodes] at hc ⊢
    by_cases hend : width ≤ x + (codeAt mem width left n x).len
    · rw [if_pos hend] at hc ⊢
      obtain rfl := List.mem_singleton.1 hc
      exact ⟨hstart.ge, by omega, _, rfl, le_rfl⟩
    rw [if_neg hend] at hc ⊢
    cases hrest : lineCodes mem width fuel 0 (codeAt mem width left n x).stop
        (x + (codeAt mem width left n x).len) with
    | nil =>
      rw [hrest] at hc
      obtain rfl := List.mem_singleton.1 hc
      exact ⟨hstart.ge, by omega, _, rfl, le_rfl⟩
    | cons c₂ rest =>
      rw [hrest] at hc
      rw [List.getLast?_cons_cons, ← hrest]
      rcases List.mem_cons.1 hc with rfl | hc
      · obtain ⟨hle, hlt, last, hlast, hle'⟩ := ih (hrest ▸ List.mem_cons_self)
        exact ⟨hstart.ge, by omega, last, hlast, by omega⟩
      · obtain ⟨hle, hlt, last, hlast, hle'⟩ := ih (hrest ▸ hc)
        exact ⟨by omega, hlt, last, hlast, hle'⟩

theorem codeAt_len_pos {width x : ℤ} (h : ¬width ≤ x + (codeAt mem width left n x).len) :
    0 < (codeAt mem width left n x).len := by
  unfold codeAt at h ⊢
  dsimp only at h ⊢
  split at h
  · omega
  · rw [if_neg ‹_›]
    omega

theorem Drawing.loop_step {width height : ℤ} {cmd_offs : ℕ} (fuel : ℕ) (h : d.At mem left n)
    (hptr : d.bit_ptr.2 < cmd_offs) :
    d.loop mem width height cmd_offs (fuel + 1) =
      if width ≤ d.put_x + (codeAt mem width left n d.put_x).len then
        let d' := (d.drawn mem (codeAt mem width left n d.put_x)).lineEnd
        if height ≤ d'.put_y then some d' else d'.loop mem width height cmd_offs fuel
      else
        (d.drawn mem (codeAt mem width left n d.put_x)).loop mem width height cmd_offs fuel := by
  rw [Drawing.loop, if_pos hptr, Drawing.run_eq width height h]
  split_ifs with hend
  · rw [Drawing.nextLine_eq]
    simp only [decide_eq_true_eq]
    rfl
  · rfl

theorem Drawing.At.bottom (h : d.At mem left n) (hfield : d.field = true) :
    d.bit_ptr.2 = (n + 1) / 2 := by
  have hptr := h.ptr
  unfold Drawing.ptr at hptr
  rwa [hfield, if_pos rfl] at hptr

theorem Drawing.drawn_bottom (c : Code) (hfield : d.field = false) :
    (d.drawn mem c).bit_ptr.2 = d.bit_ptr.2 := by
  unfold Drawing.drawn Drawing.sought Drawing.moved
  rw [hfield]
  rfl

theorem Drawing.loop_whole {width : ℤ} (height : ℤ) {cmd_offs : ℕ} (fuel : ℕ) :
    ∀ (loopFuel : ℕ) {left n : ℕ} {d : Drawing}, d.At mem left n → (width - d.put_x).toNat < fuel →
      (d.field = false → d.bit_ptr.2 < cmd_offs) →
      (d.field = true → ∀ c ∈ lineCodes mem width fuel left n d.put_x,
        (c.start + 1) / 2 < cmd_offs) →
      (lineCodes mem width fuel left n d.put_x).length < loopFuel →
      d.loop mem width height cmd_offs loopFuel =
        (let d' := (d.drawnAll mem (lineCodes mem width fuel left n d.put_x)).lineEnd
        if height ≤ d'.put_y then some d'
        else d'.loop mem width height cmd_offs
          (loopFuel - (lineCodes mem width fuel left n d.put_x).length)) := by
  induction fuel with
  | zero => exact fun _ _ _ _ _ h => absurd h (Nat.not_lt_zero _)
  | succ fuel ih =>
    intro loopFuel left n d hat hfuel hbottom hcodes hloop
    have hptr : d.bit_ptr.2 < cmd_offs := by
      cases hfield : d.field with
      | false => exact hbottom hfield
      | true =>
        rw [hat.bottom hfield]
        exact hcodes hfield (codeAt mem width left n d.put_x) (by rw [lineCodes]; exact List.mem_cons_self)
    obtain ⟨loopFuel, rfl⟩ : ∃ l, loopFuel = l + 1 := ⟨loopFuel - 1, by omega⟩
    rw [Drawing.loop_step loopFuel hat hptr]
    rw [lineCodes] at hcodes hloop ⊢
    dsimp only at hcodes hloop ⊢
    by_cases hend : width ≤ d.put_x + (codeAt mem width left n d.put_x).len
    · rw [if_pos hend] at hloop ⊢
      rw [if_pos hend]
      rfl
    · rw [if_neg hend] at hcodes hloop ⊢
      rw [if_neg hend]
      have hpos := codeAt_len_pos hend
      rw [List.length_cons] at hloop
      have hrest := ih loopFuel (d.at_drawn mem (codeAt mem width left n d.put_x))
        (by show (width - (d.put_x + _)).toNat < fuel; omega)
        (fun hfield => by rw [Drawing.drawn_bottom (d := d) _ hfield]; exact hbottom hfield)
        (fun hfield c hc => hcodes hfield c (List.mem_cons_of_mem _ hc))
        (by show (lineCodes mem width fuel 0 _ (d.put_x + _)).length < loopFuel; omega)
      rw [hrest]
      rw [List.length_cons, Nat.add_sub_add_right, Drawing.drawnAll_cons]
      rfl

theorem Drawing.loop_cut {width : ℤ} (height : ℤ) {cmd_offs : ℕ} (fuel : ℕ) :
    ∀ (loopFuel : ℕ) {left n : ℕ} {d : Drawing}, d.At mem left n → (width - d.put_x).toNat < fuel →
      d.field = true →
      (∃ c ∈ lineCodes mem width fuel left n d.put_x, cmd_offs ≤ (c.start + 1) / 2) →
      ((lineCodes mem width fuel left n d.put_x).takeWhile
        fun c => decide ((c.start + 1) / 2 < cmd_offs)).length < loopFuel →
      d.loop mem width height cmd_offs loopFuel =
        some (d.drawnAll mem ((lineCodes mem width fuel left n d.put_x).takeWhile
          fun c => decide ((c.start + 1) / 2 < cmd_offs))) := by
  induction fuel with
  | zero => exact fun _ _ _ _ _ h => absurd h (Nat.not_lt_zero _)
  | succ fuel ih =>
    intro loopFuel left n d hat hfuel hfield hcut hloop
    have hstart : (codeAt mem width left n d.put_x).start = n := rfl
    obtain ⟨loopFuel, rfl⟩ : ∃ l, loopFuel = l + 1 := ⟨loopFuel - 1, by omega⟩
    rw [lineCodes] at hcut hloop ⊢
    by_cases hptr : (n + 1) / 2 < cmd_offs
    · have hptr' : d.bit_ptr.2 < cmd_offs := by rwa [hat.bottom hfield]
      rw [List.takeWhile_cons, hstart, if_pos (decide_eq_true hptr)] at hloop ⊢
      rw [Drawing.loop_step loopFuel hat hptr']
      have hend : ¬width ≤ d.put_x + (codeAt mem width left n d.put_x).len := by
        intro hend
        rw [if_pos hend] at hcut
        obtain ⟨c, hc, hle⟩ := hcut
        rw [List.mem_singleton.1 hc, hstart] at hle
        omega
      rw [if_neg hend] at hcut hloop ⊢
      rw [if_neg hend]
      have hpos := codeAt_len_pos hend
      rw [List.length_cons] at hloop
      have hrest := ih loopFuel (d.at_drawn mem (codeAt mem width left n d.put_x))
        (by show (width - (d.put_x + _)).toNat < fuel; omega) hfield
        (by
          obtain ⟨c, hc, hle⟩ := hcut
          rcases List.mem_cons.1 hc with rfl | hc
          · omega
          · exact ⟨c, hc, hle⟩)
        (Nat.lt_of_succ_lt_succ hloop)
      rw [hrest, Drawing.drawnAll_cons]
      rfl
    · -- the loop ends at the first code that is not drawn
      rw [List.takeWhile_cons, hstart, if_neg (by rw [decide_eq_false hptr]; exact Bool.false_ne_true)]
      rw [Drawing.loop, if_neg (by rwa [hat.bottom hfield])]
      rfl

/-! ## The lines -/

variable {line : Line}

/-- The drawing is in front of a line. -/
structure Drawing.Begins (d : Drawing) (line : Line) : Prop where
  bit_ptr : d.bit_ptr = (line.top, line.bottom)
  field : d.field = line.odd
  put_x : d.put_x = 0
  put_y : d.put_y = line.y
  data : d.data = line.left
  bits_left : d.bits_left = 0
  left : line.left < 16

theorem Line.place_even (line : Line) : line.place % 2 = 0 := Nat.mul_mod_right 2 _

theorem Drawing.Begins.at (mem : ℕ → Byte) (h : d.Begins line) : d.At mem line.left line.place where
  ptr := by
    unfold Drawing.ptr Line.place
    rw [h.field, h.bit_ptr]
    split <;> omega
  bits_left := by rw [h.bits_left, if_pos line.place_even]
  data := by rw [h.data, if_pos line.place_even]
  left_zero := fun hodd => absurd line.place_even hodd
  left_lt := h.left

theorem Drawing.drawnAll_sought (mem : ℕ → Byte) (codes : List Code) :
    ∀ (d : Drawing) (last : Code), codes.getLast? = some last →
      (d.drawnAll mem codes).bit_ptr = d.moved ((last.stop + 1) / 2) ∧
        (d.drawnAll mem codes).data = if last.stop % 2 = 0 then 0 else nibble mem last.stop := by
  induction codes with
  | nil => exact fun _ _ h => by cases h
  | cons c codes ih =>
    intro d last hlast
    rw [Drawing.drawnAll_cons]
    cases codes with
    | nil =>
      obtain rfl : c = last := by simpa using hlast
      exact ⟨rfl, rfl⟩
    | cons c₂ codes =>
      rw [List.getLast?_cons_cons] at hlast
      obtain ⟨hptr, hdata⟩ := ih (d.drawn mem c) last hlast
      refine ⟨?_, hdata⟩
      rw [hptr]
      unfold Drawing.drawn Drawing.sought Drawing.moved
      dsimp only
      split <;> rfl

theorem Line.exists_last (mem : ℕ → Byte) (width : ℤ) (line : Line) :
    ∃ last, (line.codes mem width).getLast? = some last ∧ line.stop mem width = last.stop ∧
      line.place < last.stop := by
  have hfirst : codeAt mem width line.left line.place 0 ∈ line.codes mem width := by
    unfold Line.codes
    rw [lineCodes]
    exact List.mem_cons_self
  obtain ⟨hle, hlt, last, hlast, hstop⟩ := lineCodes_mem _ hfirst
  refine ⟨last, hlast, ?_, by omega⟩
  unfold Line.stop
  rw [show (line.codes mem width).getLast? = some last from hlast]
  rfl

theorem Line.odd_next (mem : ℕ → Byte) (width : ℤ) (line : Line) :
    (line.next mem width).odd = !line.odd := by
  unfold Line.odd Line.next
  by_cases h : line.y % 2 = 1
  · rw [decide_eq_true h, decide_eq_false (by dsimp only; omega)]
    rfl
  · rw [decide_eq_false h, decide_eq_true (by dsimp only; omega)]
    rfl

theorem Drawing.Begins.next (mem : ℕ → Byte) (width : ℤ) (h : d.Begins line) :
    (d.drawnAll mem (line.codes mem width)).lineEnd.Begins (line.next mem width) := by
  obtain ⟨last, hlast, hstop, -⟩ := line.exists_last mem width
  obtain ⟨hptr, hdata⟩ := d.drawnAll_sought mem (line.codes mem width) last hlast
  obtain ⟨-, -, hfield, hput_y⟩ := d.drawnAll_fields mem (line.codes mem width)
  constructor
  · show (d.drawnAll mem (line.codes mem width)).bit_ptr = _
    rw [hptr]
    unfold Drawing.moved Line.next
    rw [h.field, h.bit_ptr, hstop]
    split <;> rfl
  · show (!(d.drawnAll mem (line.codes mem width)).field) = _
    rw [hfield, h.field, Line.odd_next]
  · rfl
  · show (d.drawnAll mem (line.codes mem width)).put_y + 1 = _
    rw [hput_y, h.put_y]
    rfl
  · show (d.drawnAll mem (line.codes mem width)).data = _
    rw [hdata, ← hstop]
    rfl
  · rfl
  · unfold Line.next
    dsimp only
    split
    · omega
    · exact nibble_lt mem _

theorem Drawing.drawnAll_data_lt (mem : ℕ → Byte) (codes : List Code) :
    ∀ {d : Drawing}, d.data < 16 → (d.drawnAll mem codes).data < 16 := by
  induction codes with
  | nil => exact fun h => h
  | cons c codes ih =>
    intro d _
    rw [Drawing.drawnAll_cons]
    apply ih
    show (if c.stop % 2 = 0 then 0 else nibble mem c.stop) < 16
    split
    · omega
    · exact nibble_lt mem _

theorem linesFrom_nil {picture : Picture} (fuel : ℕ) (h : picture.cmd_offs ≤ line.bottom) :
    linesFrom picture fuel line = [] := by
  cases fuel with
  | zero => rfl
  | succ fuel => rw [linesFrom, if_neg (by omega)]

theorem Line.bottom_next (mem : ℕ → Byte) (width : ℤ) (line : Line) :
    if line.odd then line.bottom < (line.next mem width).bottom
    else (line.next mem width).bottom = line.bottom := by
  obtain ⟨last, -, hstop, hlt⟩ := line.exists_last mem width
  unfold Line.next
  cases hodd : line.odd
  · rfl
  · unfold Line.place at hlt
    rw [hodd, if_pos rfl] at hlt
    simp only [if_true]
    omega

theorem Line.bottom_next_of_cut {mem : ℕ → Byte} {width : ℤ} {cmd_offs : ℕ} {c : Code}
    (hodd : line.odd = true) (hc : c ∈ line.codes mem width) (hle : cmd_offs ≤ (c.start + 1) / 2) :
    cmd_offs ≤ (line.next mem width).bottom := by
  obtain ⟨last, hlast, hstop, -⟩ := line.exists_last mem width
  obtain ⟨-, hlt, last', hlast', hle'⟩ := lineCodes_mem _ hc
  obtain rfl : last = last' := Option.some.inj (hlast.symm.trans hlast')
  unfold Line.next
  rw [hodd, hstop]
  simp only [if_true]
  omega

/-- How many lines can be drawn from a line on: every other line takes a byte of the field `1`. -/
def Line.measure (cmd_offs : ℕ) (line : Line) : ℕ := 2 * (cmd_offs - line.bottom) + (1 - line.y % 2)

theorem Line.measure_next_lt (mem : ℕ → Byte) (width : ℤ) {cmd_offs : ℕ}
    (h : line.bottom < cmd_offs) : (line.next mem width).measure cmd_offs < line.measure cmd_offs := by
  have hbottom := line.bottom_next mem width
  have hy : (line.next mem width).y = line.y + 1 := rfl
  unfold Line.measure
  by_cases hodd : line.y % 2 = 1
  · rw [show line.odd = true from decide_eq_true hodd, if_pos rfl] at hbottom
    omega
  · rw [show line.odd = false from decide_eq_false hodd, if_neg Bool.false_ne_true] at hbottom
    omega

theorem Drawing.loop_lines (picture : Picture) (fuel : ℕ) :
    ∀ {line : Line} {d : Drawing} {loopFuel : ℕ}, d.Begins line →
      line.measure picture.cmd_offs < fuel →
      ((linesFrom picture fuel line).flatMap
        (Line.drawn picture.mem picture.width picture.cmd_offs)).length < loopFuel →
      ∃ d', d.loop picture.mem picture.width picture.height picture.cmd_offs loopFuel = some d' ∧
        d'.rle = d.rle ++ ((linesFrom picture fuel line).flatMap
          (Line.drawn picture.mem picture.width picture.cmd_offs)).map Code.run ∧
        d'.reads = d.reads ++ ((linesFrom picture fuel line).flatMap
          (Line.drawn picture.mem picture.width picture.cmd_offs)).flatMap Code.bytes ∧
        d'.data < 16 := by
  induction fuel with
  | zero => exact fun _ h => absurd h (Nat.not_lt_zero _)
  | succ fuel ih =>
    intro line d loopFuel hbegins hfuel hloop
    have hat := hbegins.at picture.mem
    have hdata : d.data < 16 := hbegins.data ▸ hbegins.left
    rw [linesFrom] at hloop ⊢
    by_cases hbottom : line.bottom < picture.cmd_offs
    swap
    · rw [if_neg hbottom] at hloop ⊢
      obtain ⟨loopFuel, rfl⟩ : ∃ l, loopFuel = l + 1 := ⟨loopFuel - 1, by omega⟩
      refine ⟨d, ?_, (List.append_nil _).symm, (List.append_nil _).symm, hdata⟩
      rw [Drawing.loop, if_neg (by rwa [hbegins.bit_ptr])]
    rw [if_pos hbottom, List.flatMap_cons, List.length_append] at hloop
    rw [if_pos hbottom, List.flatMap_cons]
    have hwidth : (picture.width - d.put_x).toNat < picture.width.toNat + 1 := by
      rw [hbegins.put_x]
      omega
    have hcodes : lineCodes picture.mem picture.width (picture.width.toNat + 1) line.left line.place
        d.put_x = line.codes picture.mem picture.width := by
      rw [hbegins.put_x]
      rfl
    by_cases hcut : line.odd = true ∧ ∃ c ∈ line.codes picture.mem picture.width,
        picture.cmd_offs ≤ (c.start + 1) / 2
    · -- the line is not drawn to its end
      obtain ⟨hodd, hcut⟩ := hcut
      have hnext : (if picture.height ≤ line.y + 1 then []
          else linesFrom picture fuel (line.next picture.mem picture.width)) = [] := by
        obtain ⟨c, hc, hle⟩ := hcut
        rw [linesFrom_nil fuel (Line.bottom_next_of_cut hodd hc hle), ite_self]
      have hdrawn : line.drawn picture.mem picture.width picture.cmd_offs =
          (line.codes picture.mem picture.width).takeWhile
            fun c => decide ((c.start + 1) / 2 < picture.cmd_offs) := by
        unfold Line.drawn
        rw [if_pos hodd]
      rw [hdrawn] at hloop
      rw [hnext, List.flatMap_nil, List.append_nil, hdrawn]
      have hrun := Drawing.loop_cut picture.height (picture.width.toNat + 1) loopFuel hat hwidth (hbegins.field.trans hodd) (by rwa [hcodes])
        (by rw [hcodes]; omega)
      rw [hcodes] at hrun
      obtain ⟨hrle, hreads, -, -⟩ := d.drawnAll_fields picture.mem
        ((line.codes picture.mem picture.width).takeWhile
          fun c => decide ((c.start + 1) / 2 < picture.cmd_offs))
      exact ⟨_, hrun, hrle, hreads, Drawing.drawnAll_data_lt _ _ hdata⟩
    · have hall : line.odd = true → ∀ c ∈ line.codes picture.mem picture.width,
          (c.start + 1) / 2 < picture.cmd_offs := by
        intro hodd c hc
        by_contra hle
        exact hcut ⟨hodd, c, hc, by omega⟩
      have hdrawn : line.drawn picture.mem picture.width picture.cmd_offs =
          line.codes picture.mem picture.width := by
        unfold Line.drawn
        split
        · exact List.takeWhile_eq_self_iff.2 fun c hc => decide_eq_true (hall ‹_› c hc)
        · rfl
      rw [hdrawn] at hloop ⊢
      have hrun := Drawing.loop_whole picture.height (picture.width.toNat + 1) loopFuel hat hwidth (fun _ => by rwa [hbegins.bit_ptr])
        (fun hfield => by rw [hcodes]; exact hall (hbegins.field.symm.trans hfield))
        (by rw [hcodes]; omega)
      rw [hcodes] at hrun
      obtain ⟨hrle, hreads, -, -⟩ :=
        d.drawnAll_fields picture.mem (line.codes picture.mem picture.width)
      have hnext := hbegins.next picture.mem picture.width
      have hput_y : (d.drawnAll picture.mem (line.codes picture.mem picture.width)).lineEnd.put_y =
          (line.y : ℤ) + 1 := hnext.put_y
      dsimp only at hrun
      rw [hput_y] at hrun
      by_cases hlast : picture.height ≤ line.y + 1
      · rw [if_pos hlast] at hrun
        rw [if_pos hlast, List.flatMap_nil, List.append_nil]
        exact ⟨_, hrun, hrle, hreads, Drawing.drawnAll_data_lt _ _ hdata⟩
      · rw [if_neg hlast] at hrun hloop
        rw [if_neg hlast]
        have hmeasure := line.measure_next_lt picture.mem picture.width hbottom
        obtain ⟨d', hloop', hrle', hreads', hdata'⟩ := @ih _ _
          (loopFuel - (line.codes picture.mem picture.width).length) hnext (by omega) (by omega)
        refine ⟨d', hrun.trans hloop', ?_, ?_, hdata'⟩
        · rw [hrle', List.map_append, ← List.append_assoc, ← hrle]
          rfl
        · rw [hreads', List.flatMap_append, ← List.append_assoc, ← hreads]
          rfl

/-! ## The buffers -/

theorem Picture.spudecDrawPicture_codes (picture : Picture) {fuel : ℕ}
    (hfuel : picture.codes.length < fuel) :
    ∃ d, picture.spudecDrawPicture fuel = some d ∧ d.rle = picture.codes.map Code.run ∧
      d.reads = picture.codes.flatMap Code.bytes ∧ d.data < 16 := by
  refine Drawing.loop_lines picture (2 * picture.cmd_offs + 2) (d := picture.start)
    ⟨rfl, rfl, rfl, rfl, rfl, rfl, picture.left⟩ ?_ hfuel
  unfold Line.measure
  dsimp only
  omega

/-- A picture fits its buffers: there is an element for each code, and the lines of the field `0` end
in the unit. -/
def Picture.Fits (picture : Picture) : Prop :=
  picture.codes.length ≤ picture.allocated ∧
    ∀ line ∈ picture.lines, line.odd = false →
      (line.stop picture.mem picture.width + 1) / 2 ≤ picture.seq_len

instance (picture : Picture) : Decidable picture.Fits :=
  inferInstanceAs (Decidable (_ ∧ ∀ line ∈ picture.lines, _))

theorem lineCodes_bytes {width : ℤ} (fuel : ℕ) :
    ∀ {left n : ℕ} {x : ℤ} {last : Code},
      (lineCodes mem width fuel left n x).getLast? = some last →
      (lineCodes mem width fuel left n x).flatMap Code.bytes = bytesBetween n last.stop := by
  induction fuel with
  | zero => exact fun h => by cases h
  | succ fuel ih =>
    intro left n x last hlast
    have hpos := vlcAt_snd_pos mem left n
    have hstop : (codeAt mem width left n x).stop = n + (vlcAt mem left n).2 := rfl
    rw [lineCodes] at hlast ⊢
    by_cases hend : width ≤ x + (codeAt mem width left n x).len
    · rw [if_pos hend] at hlast ⊢
      obtain rfl : codeAt mem width left n x = last := by simpa using hlast
      exact List.append_nil _
    rw [if_neg hend] at hlast ⊢
    cases hrest : lineCodes mem width fuel 0 (codeAt mem width left n x).stop
        (x + (codeAt mem width left n x).len) with
    | nil =>
      rw [hrest] at hlast
      obtain rfl : codeAt mem width left n x = last := by simpa using hlast
      exact List.append_nil _
    | cons c₂ rest =>
      rw [hrest, List.getLast?_cons_cons, ← hrest] at hlast
      obtain ⟨hle, hlt, last', hlast', hle'⟩ := lineCodes_mem fuel (c := c₂)
        (hrest ▸ List.mem_cons_self)
      obtain rfl : last = last' := Option.some.inj (hlast.symm.trans hlast')
      have hstart : (codeAt mem width left n x).start = n := rfl
      rw [← hrest, List.flatMap_cons, ih hlast]
      exact bytesBetween_append (by omega) (by omega)

theorem Line.bytes_lt_iff (mem : ℕ → Byte) (width : ℤ) (line : Line) (seq_len : ℕ) :
    (∀ offset ∈ (line.codes mem width).flatMap Code.bytes, offset < seq_len) ↔
      (line.stop mem width + 1) / 2 ≤ seq_len := by
  obtain ⟨last, hlast, hstop, hlt⟩ := line.exists_last mem width
  have heven := line.place_even
  have hbytes : (line.codes mem width).flatMap Code.bytes = bytesBetween line.place last.stop :=
    lineCodes_bytes _ hlast
  rw [hbytes, hstop]
  unfold bytesBetween
  simp only [List.mem_range'_1]
  constructor
  · intro h
    have := h ((last.stop + 1) / 2 - 1) ⟨by omega, by omega⟩
    omega
  · rintro h offset ⟨-, hoffset⟩
    omega

theorem vlcAt_snd_le (mem : ℕ → Byte) (left n : ℕ) : (vlcAt mem left n).2 ≤ 4 := by
  unfold vlcAt rleCode
  dsimp only
  split_ifs <;> omega

theorem lineCodes_stop_le {width : ℤ} (fuel : ℕ) :
    ∀ {left n : ℕ} {x : ℤ} {c : Code}, c ∈ lineCodes mem width fuel left n x →
      c.stop ≤ c.start + 4 := by
  induction fuel with
  | zero => exact fun hc => absurd hc List.not_mem_nil
  | succ fuel ih =>
    intro left n x c hc
    rw [lineCodes] at hc
    rcases List.mem_cons.1 hc with rfl | hc
    · exact Nat.add_le_add_left (vlcAt_snd_le mem left n) n
    · split at hc
      · exact absurd hc List.not_mem_nil
      · exact ih hc

theorem Line.bytes_lt_of_odd {width : ℤ} {cmd_offs seq_len : ℕ} (hcmd_offs : cmd_offs < seq_len)
    (hodd : line.odd = true) :
    ∀ offset ∈ (line.drawn mem width cmd_offs).flatMap Code.bytes, offset < seq_len := by
  intro offset hoffset
  obtain ⟨c, hc, hmem⟩ := List.mem_flatMap.1 hoffset
  unfold Line.drawn at hc
  rw [if_pos hodd] at hc
  have hstart : decide ((c.start + 1) / 2 < cmd_offs) = true :=
    List.mem_takeWhile_imp (p := fun c : Code => decide ((c.start + 1) / 2 < cmd_offs)) hc
  rw [decide_eq_true_eq] at hstart
  have hstop := lineCodes_stop_le _ ((List.takeWhile_sublist _).subset hc)
  unfold Code.bytes bytesBetween at hmem
  rw [List.mem_range'_1] at hmem
  omega

/-- A picture stays in its buffers if and only if it fits them. -/
theorem Picture.spudecDrawPicture_inside (picture : Picture) (fuel : ℕ)
    (hfuel : picture.codes.length < fuel) :
    ∃ d, picture.spudecDrawPicture fuel = some d ∧
      ((d.rle.length ≤ picture.allocated ∧ ∀ offset ∈ d.reads, offset < picture.seq_len) ↔
        picture.Fits) := by
  obtain ⟨d, hrun, hrle, hreads, -⟩ := picture.spudecDrawPicture_codes hfuel
  refine ⟨d, hrun, ?_⟩
  unfold Picture.Fits
  rw [hrle, hreads, List.length_map]
  have hflat : picture.codes.flatMap Code.bytes = picture.lines.flatMap fun line =>
      (line.drawn picture.mem picture.width picture.cmd_offs).flatMap Code.bytes :=
    List.flatMap_assoc
  rw [hflat]
  refine and_congr_right fun _ => ?_
  constructor
  · intro h line hline heven
    rw [← Line.bytes_lt_iff]
    intro offset hoffset
    refine h offset (List.mem_flatMap.2 ⟨line, hline, ?_⟩)
    unfold Line.drawn
    rw [heven]
    exact hoffset
  · intro h offset hoffset
    obtain ⟨line, hline, hmem⟩ := List.mem_flatMap.1 hoffset
    cases hodd : line.odd with
    | true => exact Line.bytes_lt_of_odd picture.commands hodd offset hmem
    | false =>
      unfold Line.drawn at hmem
      rw [hodd] at hmem
      exact (Line.bytes_lt_iff _ _ _ _).2 (h line hline hodd) offset hmem

/-- A unit of six bytes whose field `0` begins with the last of them, for a picture of a hundred pixels
in a line. -/
def overrun : Picture where
  mem := fun offset => [0, 6, 0, 4].getD offset 0xff
  seq_len := 6
  cmd_offs := 4
  commands := by decide
  field_offs := (5, 2)
  width := 100
  height := 2
  data := 0
  left := no_left

/-- The reassembly accepts the unit. Its drawing reads behind it, and has more runs than elements. -/
theorem spudecDrawPicture_not_inside :
    ((spudecReassembly SpudecSeq.start [0, 6, 0, 4, 0xff, 0xff]).map fun seq =>
        (seq.buf, seq.cmd_offs, seq.complete, seq.broken)) =
        some ((List.range 6).map fun offset => some (overrun.mem offset), 4, true, false) ∧
      ∃ d, overrun.spudecDrawPicture 50 = some d ∧ 6 ∈ d.reads ∧ ¬6 < overrun.seq_len ∧
        ¬d.rle.length ≤ overrun.allocated :=
  ⟨by decide, (overrun.spudecDrawPicture 50).get (by decide), by decide, by decide, by decide,
    by decide⟩

/-- Two lines of four pixels, each of one run to the end of the line. -/
def twoLines : Picture where
  mem := fun offset => [0, 20, 0, 10, 0, 1, 0, 2].getD offset 0
  seq_len := 20
  cmd_offs := 10
  commands := by decide
  field_offs := (4, 6)
  width := 4
  height := 2
  data := 0
  left := no_left

theorem spudecDrawPicture_inside_twoLines :
    ∃ d, twoLines.spudecDrawPicture 3 = some d ∧ d.rle.length ≤ 20 ∧
      ∀ offset ∈ d.reads, offset < 20 := by
  obtain ⟨d, hrun, hiff⟩ := twoLines.spudecDrawPicture_inside 3 (by decide)
  exact ⟨d, hrun, hiff.2 (by decide)⟩

end Xine.Spu
