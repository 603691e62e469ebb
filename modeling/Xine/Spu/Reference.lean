import Mathlib.Algebra.BigOperators.Group.List.Basic
import Xine.Spu.Layout

/-!
# The runs of a picture

The run-length code of a picture says for each line which runs it has: a run that is too long for the
line is cut, a run of no length goes to the end of the line, and the next line begins with the next byte
of its field. `spudec_draw_picture` writes these runs when no run is too long, nothing is left in the bit
reader where a line begins, and the loop is not left before the last line is complete.
-/

namespace Xine.Spu

open Octets

/-! ## The run-length code -/

/-- The runs of a line from a place on, when some of its pixels are missing yet, and the place behind
them. -/
def referenceLine (mem : ℕ → Byte) : ℕ → ℕ → ℕ → List RleElem × ℕ
  | 0, n, _ => ([], n)
  | fuel + 1, n, missing =>
    if missing = 0 then
      ([], n)
    else
      let code := rleCode mem n
      let len := if code.1 / 4 = 0 then missing else min (code.1 / 4) missing
      let rest := referenceLine mem fuel (n + code.2) (missing - len)
      ({ len := len, color := code.1 % 4 } :: rest.1, rest.2)

/-- The runs of the lines, when the fields are at some bytes: the even lines are in the first field. -/
def referenceLines (mem : ℕ → Byte) (width : ℕ) : ℕ → Bool → ℕ → ℕ → List (List RleElem)
  | 0, _, _, _ => []
  | lines + 1, odd, top, bottom =>
    let line := referenceLine mem (width + 1) (2 * if odd then bottom else top) width
    line.1 :: referenceLines mem width lines (!odd)
      (if odd then top else (line.2 + 1) / 2) (if odd then (line.2 + 1) / 2 else bottom)

/-- The runs of a picture, line by line. -/
def Picture.reference (picture : Picture) : List (List RleElem) :=
  referenceLines picture.mem picture.width.toNat picture.height.toNat false
    picture.field_offs.1 picture.field_offs.2

variable {mem : ℕ → Byte} {picture : Picture} {line : Line}

theorem referenceLine_sum (fuel : ℕ) :
    ∀ (n missing : ℕ), missing ≤ fuel →
      ((referenceLine mem fuel n missing).1.map RleElem.len).sum = missing := by
  induction fuel with
  | zero =>
    intro n missing h
    exact (Nat.le_zero.1 h).symm
  | succ fuel ih =>
    intro n missing h
    rw [referenceLine]
    split
    · exact (‹missing = 0›).symm
    · dsimp only
      rw [List.map_cons, List.sum_cons, ih _ _ (by split <;> omega)]
      dsimp only
      split <;> omega

theorem referenceLines_sum {width : ℕ} (lines : ℕ) :
    ∀ (odd : Bool) (top bottom : ℕ), ∀ runs ∈ referenceLines mem width lines odd top bottom,
      (runs.map RleElem.len).sum = width := by
  induction lines with
  | zero => exact fun _ _ _ _ h => absurd h List.not_mem_nil
  | succ lines ih =>
    intro odd top bottom runs hruns
    rw [referenceLines] at hruns
    rcases List.mem_cons.1 hruns with rfl | hruns
    · exact referenceLine_sum (width + 1) _ width (Nat.le_succ width)
    · exact ih _ _ _ runs hruns

/-! ## Regular pictures -/

/-- The lines of a picture in the pixel data, when nothing is left in the bit reader. -/
def cleanLines (mem : ℕ → Byte) (width : ℤ) : ℕ → Line → List Line
  | 0, _ => []
  | lines + 1, line =>
    line :: cleanLines mem width lines { line.next mem width with left := 0 }

/-- A line whose runs are drawn as they are: they have the pixels of the line and not more, they are met
before the offset of the commands, and half a byte that is over is zero if a line follows. -/
structure Line.Regular (picture : Picture) (line : Line) : Prop where
  exact : ((line.codes picture.mem picture.width).map Code.len).sum = picture.width
  bottom : line.bottom < picture.cmd_offs
  before : line.odd = true → ∀ c ∈ line.codes picture.mem picture.width,
    (c.start + 1) / 2 < picture.cmd_offs
  clean : (line.y : ℤ) + 1 < picture.height → (line.next picture.mem picture.width).left = 0

/-- A picture with pixels whose lines are all regular, and nothing left in the bit reader. -/
structure Picture.Regular (picture : Picture) : Prop where
  width : 1 ≤ picture.width ∧ picture.width < 65536
  height : 1 ≤ picture.height
  data : picture.data = 0
  lines : ∀ line ∈ cleanLines picture.mem picture.width picture.height.toNat
    { y := 0, top := picture.field_offs.1, bottom := picture.field_offs.2, left := 0 },
    line.Regular picture

instance (picture : Picture) (line : Line) : Decidable (line.Regular picture) :=
  decidable_of_iff
    (((line.codes picture.mem picture.width).map Code.len).sum = picture.width ∧
      line.bottom < picture.cmd_offs ∧
      (line.odd = true → ∀ c ∈ line.codes picture.mem picture.width,
        (c.start + 1) / 2 < picture.cmd_offs) ∧
      ((line.y : ℤ) + 1 < picture.height → (line.next picture.mem picture.width).left = 0))
    ⟨fun ⟨exact, bottom, before, clean⟩ => ⟨exact, bottom, before, clean⟩,
      fun h => ⟨h.exact, h.bottom, h.before, h.clean⟩⟩

theorem vlcAt_zero (mem : ℕ → Byte) (n : ℕ) : vlcAt mem 0 n = rleCode mem n := if_pos rfl

theorem referenceLine_zero (fuel n : ℕ) : referenceLine mem fuel n 0 = ([], n) := by
  cases fuel with
  | zero => rfl
  | succ fuel => rw [referenceLine, if_pos rfl]

theorem referenceLine_eq {width : ℤ} (hwidth : width < 65536) (fuel : ℕ) :
    ∀ (n : ℕ) (x : ℤ), 0 ≤ x → x < width → (width - x).toNat ≤ fuel →
      ∃ last, (lineCodes mem width fuel 0 n x).getLast? = some last ∧
        (referenceLine mem fuel n (width - x).toNat).2 = last.stop ∧
        (x + ((lineCodes mem width fuel 0 n x).map Code.len).sum = width →
          (referenceLine mem fuel n (width - x).toNat).1 =
            (lineCodes mem width fuel 0 n x).map Code.run) := by
  induction fuel with
  | zero => exact fun n x h0 hlt hfuel => absurd hfuel (by omega)
  | succ fuel ih =>
    intro n x h0 hlt hfuel
    have hmissing : ¬(width - x).toNat = 0 := by omega
    have hstop : (codeAt mem width 0 n x).stop = n + (rleCode mem n).2 := by
      unfold codeAt
      rw [vlcAt_zero]
    have hlen : (codeAt mem width 0 n x).len =
        if (rleCode mem n).1 / 4 = 0 then width - x else ((rleCode mem n).1 / 4 : ℕ) := by
      unfold codeAt
      rw [vlcAt_zero]
    have hcolor : (codeAt mem width 0 n x).color = (rleCode mem n).1 % 4 := by
      unfold codeAt
      rw [vlcAt_zero]
    rw [referenceLine, if_neg hmissing, lineCodes]
    dsimp only
    by_cases hend : width ≤ x + (codeAt mem width 0 n x).len
    · -- the last run of the line has the pixels that are missing
      have hwhole : (if (rleCode mem n).1 / 4 = 0 then (width - x).toNat
          else min ((rleCode mem n).1 / 4) (width - x).toNat) = (width - x).toNat := by
        rw [hlen] at hend
        split_ifs at hend ⊢ <;> omega
      rw [if_pos hend, hwhole, Nat.sub_self, referenceLine_zero]
      refine ⟨_, rfl, hstop.symm, fun hsum => ?_⟩
      rw [List.map_singleton, List.sum_singleton] at hsum
      have hmod : (codeAt mem width 0 n x).len % 65536 = width - x := by omega
      rw [List.map_singleton, Code.run, hmod, hcolor]
    · have hlong : ¬(rleCode mem n).1 / 4 = 0 := by
        intro hzero
        rw [hlen, if_pos hzero] at hend
        omega
      rw [if_neg hlong] at hlen
      have hcut : min ((rleCode mem n).1 / 4) (width - x).toNat = (rleCode mem n).1 / 4 := by omega
      have hrest : (width - x).toNat - (rleCode mem n).1 / 4 =
          (width - (x + (codeAt mem width 0 n x).len)).toNat := by omega
      obtain ⟨last, hlast, hplace, hruns⟩ := ih (codeAt mem width 0 n x).stop
        (x + (codeAt mem width 0 n x).len) (by omega) (by omega) (by omega)
      rw [if_neg hend, if_neg hlong, hcut, hrest, ← hstop]
      refine ⟨last, ?_, hplace, fun hsum => ?_⟩
      · rw [List.getLast?_cons, hlast]
        rfl
      · rw [List.map_cons, List.sum_cons] at hsum
        rw [hruns (by omega), List.map_cons, Code.run, hcolor]
        have hmod : ((codeAt mem width 0 n x).len % 65536).toNat = (rleCode mem n).1 / 4 := by omega
        rw [hmod]

theorem Line.Regular.drawn_eq (h : line.Regular picture) :
    line.drawn picture.mem picture.width picture.cmd_offs =
      line.codes picture.mem picture.width := by
  unfold Line.drawn
  split
  · exact List.takeWhile_eq_self_iff.2 fun c hc => decide_eq_true (h.before ‹_› c hc)
  · rfl

theorem linesFrom_eq (picture : Picture) (lines : ℕ) :
    ∀ {line : Line} {fuel : ℕ}, line.left = 0 → (line.y : ℤ) + lines + 1 = picture.height →
      (∀ l ∈ cleanLines picture.mem picture.width (lines + 1) line, l.Regular picture) →
      line.measure picture.cmd_offs < fuel →
      linesFrom picture fuel line = cleanLines picture.mem picture.width (lines + 1) line := by
  induction lines with
  | zero =>
    intro line fuel hleft hheight hregular hfuel
    obtain ⟨fuel, rfl⟩ : ∃ f, fuel = f + 1 := ⟨fuel - 1, by omega⟩
    have hline := hregular line List.mem_cons_self
    rw [linesFrom, if_pos hline.bottom, if_pos (by omega)]
    rfl
  | succ lines ih =>
    intro line fuel hleft hheight hregular hfuel
    obtain ⟨fuel, rfl⟩ : ∃ f, fuel = f + 1 := ⟨fuel - 1, by omega⟩
    have hline := hregular line List.mem_cons_self
    have hmeasure := line.measure_next_lt picture.mem picture.width hline.bottom
    have hclean : { line.next picture.mem picture.width with left := 0 } =
        line.next picture.mem picture.width := by
      rw [← hline.clean (by omega)]
    rw [linesFrom, if_pos hline.bottom, if_neg (by omega), cleanLines, hclean]
    rw [cleanLines, hclean] at hregular
    have hy : (line.next picture.mem picture.width).y = line.y + 1 := rfl
    rw [ih (hline.clean (by omega)) (by omega) (fun l hl => hregular l (List.mem_cons_of_mem _ hl))
      (by omega)]

theorem referenceLines_eq (picture : Picture) (hwidth : 1 ≤ picture.width ∧ picture.width < 65536)
    (lines : ℕ) :
    ∀ line : Line, line.left = 0 →
      (∀ l ∈ cleanLines picture.mem picture.width lines line, l.Regular picture) →
      referenceLines picture.mem picture.width.toNat lines line.odd line.top line.bottom =
        (cleanLines picture.mem picture.width lines line).map
          fun l => (l.codes picture.mem picture.width).map Code.run := by
  induction lines with
  | zero => exact fun _ _ _ => rfl
  | succ lines ih =>
    intro line hleft hregular
    have hline := hregular line List.mem_cons_self
    obtain ⟨last, hlast, hplace, hruns⟩ := referenceLine_eq hwidth.2
      (picture.width.toNat + 1) line.place 0 le_rfl (by omega) (by omega)
    rw [sub_zero] at hplace hruns
    have hcodes : lineCodes picture.mem picture.width (picture.width.toNat + 1) 0 line.place 0 =
        line.codes picture.mem picture.width := by
      unfold Line.codes
      rw [hleft]
    rw [hcodes] at hlast hruns
    have hstop : line.stop picture.mem picture.width = last.stop := by
      unfold Line.stop
      rw [hlast]
      rfl
    rw [cleanLines, List.map_cons, ← ih _ rfl fun l hl => hregular l (List.mem_cons_of_mem _ hl)]
    rw [referenceLines]
    congr 1
    · exact hruns (by rw [zero_add]; exact hline.exact)
    · unfold Line.place at hplace
      rw [hplace, ← hstop]
      congr 1
      exact (line.odd_next picture.mem picture.width).symm

theorem referenceLines_length {width : ℕ} (lines : ℕ) :
    ∀ (odd : Bool) (top bottom : ℕ),
      (referenceLines mem width lines odd top bottom).length = lines := by
  induction lines with
  | zero => exact fun _ _ _ => rfl
  | succ lines ih =>
    intro odd top bottom
    rw [referenceLines, List.length_cons, ih]

/-- A regular picture is drawn with the runs of its run-length code, a line for each of its height and
as many pixels in each line as it is wide. -/
theorem Picture.Regular.spudecDrawPicture_eq (h : picture.Regular) {fuel : ℕ}
    (hfuel : picture.codes.length < fuel) :
    (∃ d, picture.spudecDrawPicture fuel = some d ∧ d.rle = picture.reference.flatten) ∧
      picture.reference.length = picture.height.toNat ∧
      ∀ runs ∈ picture.reference, (runs.map RleElem.len).sum = picture.width.toNat := by
  refine ⟨?_, referenceLines_length _ _ _ _, referenceLines_sum _ _ _ _⟩
  obtain ⟨d, hrun, hrle, -, -⟩ := picture.spudecDrawPicture_codes hfuel
  refine ⟨d, hrun, ?_⟩
  have hheight := h.height
  obtain ⟨lines, hlines⟩ : ∃ lines, picture.height.toNat = lines + 1 :=
    ⟨picture.height.toNat - 1, by omega⟩
  have hregular := h.lines
  rw [hlines] at hregular
  have hfrom : picture.lines = cleanLines picture.mem picture.width (lines + 1)
      { y := 0, top := picture.field_offs.1, bottom := picture.field_offs.2, left := 0 } := by
    unfold Picture.lines
    rw [h.data]
    refine linesFrom_eq picture lines rfl ?_ hregular ?_
    · dsimp only
      omega
    · unfold Line.measure
      dsimp only
      omega
  have hreference := referenceLines_eq picture h.width (lines + 1)
    { y := 0, top := picture.field_offs.1, bottom := picture.field_offs.2, left := 0 } rfl hregular
  have hdrawn : picture.codes = picture.lines.flatMap fun l => l.codes picture.mem picture.width := by
    unfold Picture.codes
    apply List.flatMap_congr
    intro l hl
    rw [hfrom] at hl
    exact (hregular l hl).drawn_eq
  calc d.rle
      = (picture.lines.flatMap fun l => l.codes picture.mem picture.width).map Code.run := by
        rw [hrle, hdrawn]
    _ = (picture.lines.map fun l => (l.codes picture.mem picture.width).map Code.run).flatten := by
        rw [List.map_flatMap, List.flatMap_def]
    _ = picture.reference.flatten := by
        unfold Picture.reference
        rw [hlines, hfrom, ← hreference]
        rfl

/-- Two lines of three pixels: a run of three pixels each, and half a byte that is over behind the first
one, which is not zero. -/
def padded : Picture where
  mem := fun offset => [0, 20, 0, 8, 0xd5, 0xff, 0xd0, 0xff].getD offset 0
  seq_len := 20
  cmd_offs := 8
  commands := by decide
  field_offs := (4, 6)
  width := 3
  height := 2
  data := 0
  left := no_left

/-- The half byte that is over is taken for the beginning of the second line. -/
theorem spudecDrawPicture_not_reference :
    padded.reference = [[⟨3, 1⟩], [⟨3, 1⟩]] ∧
      (padded.spudecDrawPicture 3).map Drawing.rle = some [⟨3, 1⟩, ⟨23, 1⟩] := by
  decide

theorem twoLines_regular : twoLines.Regular where
  width := by decide
  height := by decide
  data := rfl
  lines := by decide

theorem spudecDrawPicture_twoLines :
    (∃ d, twoLines.spudecDrawPicture 3 = some d ∧ d.rle = twoLines.reference.flatten) ∧
      twoLines.reference.length = 2 ∧
      ∀ runs ∈ twoLines.reference, (runs.map RleElem.len).sum = 4 :=
  twoLines_regular.spudecDrawPicture_eq (by decide)

/-- Two lines of four pixels whose half bytes are all the same, with one more of these in the bit
reader. -/
def monotone : Picture :=
  { padded with mem := fun _ => 0x11, width := 4, data := 1, left := by decide }

/-- A picture that is not regular can have the same runs all the same, when what is left over happens to
be what comes next. -/
example : ¬monotone.Regular ∧ (monotone.spudecDrawPicture 3).map Drawing.rle =
    some monotone.reference.flatten :=
  ⟨fun h => absurd h.data (by decide), by decide⟩

end Xine.Spu
