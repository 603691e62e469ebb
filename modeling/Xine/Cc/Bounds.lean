import Xine.Cc.Render

/-!
# The captioning memory stays in bounds

`decode_cc` of `cc_decoder.c` finds the pairs in what it is given. A row keeps its cursor and its data within its
cells, and so do all rows of both memories, as long as no mid-row attribute comes when the cursor is behind the last
cell.
-/

namespace Xine.Cc

/-! ## The pairs in a packet -/

/-- `parity` of a byte without its highest bit. -/
def parity (byte : ℕ) : Bool := ((List.range 7).filter byte.testBit).length % 2 = 1

def parityTable (byte : ℕ) : Bool := if byte < 0x80 then parity byte else !parity (byte % 0x80)

def goodParity (data : UInt16) : Bool := parityTable (data.toNat % 0x100) && parityTable (data.toNat / 0x100)

/-- `data1 | (data2 << 8)`. -/
def pairOf (data1 data2 : UInt8) : UInt16 := data1.toUInt16 ||| data2.toUInt16 <<< 8

/-- The loop of `decode_cc`, which has some bytes to skip. A code is followed by two bytes. -/
def decodeCcLoop : ℕ → List UInt8 → CcDecoder → Option CcDecoder
  | _, [], d => some d
  | skip + 1, _ :: bytes, d => decodeCcLoop skip bytes d
  | 0, cc_code :: bytes, d =>
    match bytes with
    | data1 :: data2 :: _ =>
      if cc_code = 0xff then
        if goodParity (pairOf data1 data2) then
          (ccDecodeEIA608 d (pairOf data1 data2)).bind (decodeCcLoop 5 bytes)
        else decodeCcLoop 5 bytes d
      else if cc_code = 0x01 ∧ data2 &&& 0x80 = 0 then decodeCcLoop 5 bytes d
      else decodeCcLoop 2 bytes d
    | _ => some d

/-- `decode_cc`, without the times. -/
def decodeCc (d : CcDecoder) (buffer : List UInt8) : Option CcDecoder := decodeCcLoop 0 buffer d

/-- The pairs that are decoded. -/
def ccPairsLoop : ℕ → List UInt8 → List UInt16
  | _, [] => []
  | skip + 1, _ :: bytes => ccPairsLoop skip bytes
  | 0, cc_code :: bytes =>
    match bytes with
    | data1 :: data2 :: _ =>
      if cc_code = 0xff then
        if goodParity (pairOf data1 data2) then pairOf data1 data2 :: ccPairsLoop 5 bytes
        else ccPairsLoop 5 bytes
      else if cc_code = 0x01 ∧ data2 &&& 0x80 = 0 then ccPairsLoop 5 bytes
      else ccPairsLoop 2 bytes
    | _ => []

/-- The pairs of a packet. -/
def ccPairs (buffer : List UInt8) : List UInt16 := ccPairsLoop 0 buffer

theorem decodeCcLoop_eq (skip : ℕ) (bytes : List UInt8) (d : CcDecoder) :
    decodeCcLoop skip bytes d = decodeAll d (ccPairsLoop skip bytes) := by
  induction bytes generalizing skip d with
  | nil => cases skip <;> rfl
  | cons cc_code bytes ih =>
    cases skip with
    | succ skip => exact ih skip d
    | zero =>
      unfold decodeCcLoop ccPairsLoop
      match bytes, ih with
      | [], _ => rfl
      | [_], _ => rfl
      | data1 :: data2 :: bytes, ih =>
        dsimp only
        split_ifs
        · refine Option.bind_congr fun d' _ => ?_
          exact ih 5 d'
        · exact ih 5 d
        · exact ih 5 d
        · exact ih 2 d

theorem decodeCc_eq (d : CcDecoder) (buffer : List UInt8) : decodeCc d buffer = decodeAll d (ccPairs buffer) :=
  decodeCcLoop_eq 0 buffer d

theorem run_decodeCc_eq (d : CcDecoder) (calls : List (List UInt8)) :
    Runs.run decodeCc d calls = decodeAll d (calls.flatMap ccPairs) := by
  induction calls generalizing d with
  | nil => rfl
  | cons buffer calls ih =>
    rw [List.flatMap_cons]
    unfold Runs.run
    rw [decodeCc_eq]
    unfold decodeAll at ih ⊢
    apply Option.ext
    intro u
    rw [Option.bind_eq_some_iff, Runs.run_append_eq_some]
    simp only [ih]

/-! ## Rows -/

/-- All rows of all channels are those of the memory. -/
def CcMemory.Ok (mem : CcMemory) : Prop :=
  ∀ (channel : Fin CC_CHANNELS) (row : Fin CC_ROWS), ((mem.channel.get channel).rows.get row).Ok

/-- All rows of a channel. -/
def CcBuffer.Ok (buf : CcBuffer) : Prop := ∀ row : Fin CC_ROWS, (buf.rows.get row).Ok

variable {buf buf' : CcBuffer} {row : CcRow} {d d' : CcDecoder} {c i : ℕ} {attr : CcAttribute}
  {command : CcCommand} {data : UInt16} {channel : Fin CC_CHANNELS}

theorem zero_ok : CcRow.zero.Ok where
  pos_le := Nat.zero_le _
  num_chars_le := Nat.zero_le _
  pac_attr := by decide
  foreground cell hcell := by
    obtain ⟨-, rfl⟩ := Vector.mem_replicate.1 hcell
    decide
  chars i cell h := absurd h (Nat.not_lt_zero i)

theorem bufferZero_ok : CcBuffer.zero.Ok := by
  intro row
  unfold CcBuffer.zero
  have hrow : (Vector.replicate CC_ROWS CcRow.zero).get row = .zero := Vector.getElem_replicate row.isLt
  rw [hrow]
  exact zero_ok

theorem clear_ok : ccmemClear.Ok := by
  intro channel row
  have hbuf : ccmemClear.channel.get channel = .zero := by
    exact Vector.getElem_replicate channel.isLt
  rw [hbuf]
  exact bufferZero_ok row

theorem CcBuffer.Ok.set (h : buf.Ok) (i : Fin CC_ROWS) (hrow : row.Ok) :
    CcBuffer.Ok { buf with rows := buf.rows.set i row i.isLt } := by
  intro j
  have hset : (buf.rows.set i row i.isLt).get j = if (i : ℕ) = j then row else buf.rows.get j :=
    Vector.getElem_set i.isLt j.isLt
  rw [hset]
  split_ifs
  · exact hrow
  · exact h j

/-! ### The operations on a row -/

theorem CcRow.Ok.set (h : row.Ok) (cell : CcCharCell) (hi : i < CC_COLUMNS)
    (hcolor : cell.attributes.foreground < NUM_FG_COL) (hchar : i < row.num_chars → cell.c ≠ 0) :
    CcRow.Ok { row with cells := row.cells.set i cell } where
  pos_le := h.pos_le
  num_chars_le := h.num_chars_le
  pac_attr := h.pac_attr
  foreground other hother := by
    obtain hmem | rfl := (@Vector.mem_or_eq_of_mem_set _ _ _ _ _ _ hi hother)
    · exact h.foreground other hmem
    · exact hcolor
  chars j other hj hother := by
    rw [Vector.getElem?_set] at hother
    split_ifs at hother with hij
    · subst hij
      cases hother
      exact hchar hj
    · exact h.chars j other hj hother

theorem setAttributes_ok (h : row.Ok) (hi : i < CC_COLUMNS) (hcolor : attr.foreground < NUM_FG_COL) :
    (row.setAttributes i attr hi).Ok :=
  h.set _ hi hcolor fun hlt => h.chars i row.cells[i] hlt (Vector.getElem?_eq_getElem hi)

theorem fillTransp_ok (h : row.Ok) : (ccrowFillTransp row).Ok where
  pos_le := h.pos_le
  num_chars_le := h.num_chars_le
  pac_attr := h.pac_attr
  foreground cell hcell := by
    obtain ⟨i, hi, hcell⟩ := Vector.mem_iff_getElem.1 hcell
    unfold ccrowFillTransp at hcell
    simp only [Vector.getElem_mapIdx] at hcell
    have hfg := h.foreground _ (Vector.getElem_mem hi)
    split_ifs at hcell
    · rw [← hcell]
      exact hfg
    · rw [← hcell]
      exact hfg
  chars i cell hi hcell := by
    unfold ccrowFillTransp at hcell hi
    have hlt : i < CC_COLUMNS := lt_of_lt_of_le hi h.num_chars_le
    rw [Vector.getElem?_eq_getElem hlt] at hcell
    simp only [Vector.getElem_mapIdx] at hcell
    rw [if_neg fun hfill => absurd hi (Nat.not_lt.2 hfill.1)] at hcell
    exact h.chars i cell hi ((Vector.getElem?_eq_getElem hlt).trans hcell)

theorem fillTransp_filled {cell : CcCharCell} (hge : row.num_chars ≤ i) (hlt : i < row.pos)
    (hpos : row.pos ≤ CC_COLUMNS) (hcell : (ccrowFillTransp row).cells[i]? = some cell) :
    cell.c = TRANSP_SPACE := by
  unfold ccrowFillTransp at hcell
  rw [Vector.getElem?_eq_getElem (by omega)] at hcell
  simp only [Vector.getElem_mapIdx] at hcell
  rw [if_pos ⟨hge, hlt⟩] at hcell
  rw [← Option.some.inj hcell]

/-- There is something in the row up to its cursor. -/
structure Filled (row filled : CcRow) : Prop where
  ok : filled.Ok
  pos : filled.pos = row.pos
  num_chars : filled.num_chars = row.num_chars
  chars : ∀ i cell, i < row.pos → filled.cells[i]? = some cell → cell.c ≠ 0

theorem filled_fill (h : row.Ok) :
    Filled row (if row.num_chars < row.pos then ccrowFillTransp row else row) := by
  split_ifs with hlt
  · refine ⟨fillTransp_ok h, rfl, rfl, fun i cell hi hcell => ?_⟩
    by_cases hdata : i < row.num_chars
    · exact (fillTransp_ok h).chars i cell hdata hcell
    · rw [fillTransp_filled (Nat.not_lt.1 hdata) hi h.pos_le hcell]
      decide
  · exact ⟨h, rfl, rfl, fun i cell hi => h.chars i cell (by omega)⟩

theorem Filled.setAttributes {filled : CcRow} (h : Filled row filled) (hpos : row.pos < CC_COLUMNS) {chg : Bool}
    (hcolor : attr.foreground < NUM_FG_COL) :
    Filled row { filled.setAttributes row.pos attr hpos with attr_chg := chg } := by
  have hset := setAttributes_ok h.ok hpos hcolor
  refine ⟨⟨hset.pos_le, hset.num_chars_le, hset.pac_attr, hset.foreground, hset.chars⟩, h.pos, h.num_chars, ?_⟩
  intro i cell hi hcell
  unfold CcRow.setAttributes at hcell
  rw [Vector.getElem?_set_ne _ (Nat.ne_of_gt hi)] at hcell
  exact h.chars i cell hi hcell

theorem Filled.store {filled : CcRow} (h : Filled row filled) (hpos : row.pos < CC_COLUMNS) (hc : c ≠ 0)
    {midrow : Bool} : CcRow.Ok { filled with
      cells := filled.cells.set row.pos { filled.cells[row.pos] with c := c, midrow_attr := midrow }
      pos := row.pos + 1
      num_chars := if filled.num_chars < row.pos + 1 then row.pos + 1 else filled.num_chars
      attr_chg := false
      pac_attr_chg := false } := by
  have hcolor := h.ok.foreground filled.cells[row.pos] (Vector.getElem_mem hpos)
  have hset := h.ok.set { filled.cells[row.pos] with c := c, midrow_attr := midrow } hpos hcolor fun _ => hc
  refine ⟨hpos, ?_, h.ok.pac_attr, hset.foreground, fun i cell hi hcell => ?_⟩
  · have hle := h.ok.num_chars_le
    dsimp only
    split_ifs
    · exact hpos
    · exact hle
  · by_cases hdata : i < filled.num_chars
    · exact hset.chars i cell hdata hcell
    · have hi' : i ≤ row.pos := by
        dsimp only at hi
        split_ifs at hi <;> omega
      obtain rfl | hlt := hi'.eq_or_lt
      · rw [Vector.getElem?_set_self hpos] at hcell
        rw [← Option.some.inj hcell]
        exact hc
      · rw [Vector.getElem?_set_ne _ (Nat.ne_of_gt hlt)] at hcell
        exact h.chars i cell hlt hcell

theorem addChar_ok (h : buf.Ok) (hc : c ≠ 0) : (ccbufAddChar buf c).Ok := by
  unfold ccbufAddChar
  dsimp only
  by_cases hpos : buf.rows[buf.rowpos].pos < CC_COLUMNS
  · rw [dif_pos hpos]
    refine h.set buf.rowpos (Filled.store (?_ : Filled buf.rows[buf.rowpos] _) hpos hc)
    have hfilled := filled_fill (h buf.rowpos)
    generalize (if buf.rows[buf.rowpos].num_chars < buf.rows[buf.rowpos].pos then
      ccrowFillTransp buf.rows[buf.rowpos] else buf.rows[buf.rowpos]) = filled at hfilled ⊢
    split_ifs
    · exact hfilled.setAttributes hpos hfilled.ok.pac_attr
    · exact hfilled
  · rw [dif_neg hpos]
    exact h

theorem setCursor_ok (h : buf.Ok) {pos : Fin CC_ROWS} {column underline italics color : ℕ}
    (hcolumn : column ≤ CC_COLUMNS) (hcolor : color < NUM_FG_COL) :
    (ccbufSetCursor buf pos column underline italics color).Ok :=
  h.set pos ⟨hcolumn, (h pos).num_chars_le, hcolor, (h pos).foreground, (h pos).chars⟩

theorem applyAttribute_ok (h : buf.Ok) (hcolor : attr.foreground < NUM_FG_COL) (hc : c ≠ 0)
    (happly : ccbufApplyAttribute buf attr c = some buf') : buf'.Ok := by
  unfold ccbufApplyAttribute at happly
  dsimp only at happly
  split_ifs at happly with hpos
  cases happly
  have hset := setAttributes_ok (h buf.rowpos) hpos hcolor
  refine addChar_ok (h.set buf.rowpos ?_) hc
  exact ⟨hset.pos_le, hset.num_chars_le, hset.pac_attr, hset.foreground, hset.chars⟩

theorem tab_ok (h : buf.Ok) (tabsize : ℕ) : (ccbufTab buf tabsize).Ok := by
  have hrow := h buf.rowpos
  refine h.set buf.rowpos ⟨?_, hrow.num_chars_le, hrow.pac_attr, hrow.foreground, hrow.chars⟩
  dsimp only
  split_ifs with hlt
  · exact le_rfl
  · exact Nat.not_lt.1 hlt

/-! ### The commands -/

/-- The characters, columns and colors of a command are those that there are. -/
def CcCommand.Proper : CcCommand → Prop
  | .write c1 c2 => chartbl c1 ≠ 0 ∧ (c2 &&& 0x60 ≠ 0 → chartbl c2 ≠ 0)
  | .move _ _ column _ _ color => column ≤ CC_COLUMNS ∧ color < NUM_FG_COL
  | .special _ c => c ≠ 0
  | .midrow _ attr => attr.foreground < NUM_FG_COL
  | .idle | .select _ | .tab .. | .eraseDisplayed _ | .eraseNonDisplayed _ | .swap _ => True

theorem chartbl_ne_zero (h : c ≠ 0) : chartbl c ≠ 0 := by
  unfold chartbl
  split <;> first | decide | exact h

theorem ne_zero_of_and {mask : ℕ} (h : c &&& mask ≠ 0) : c ≠ 0 := by
  rintro rfl
  exact h (Nat.zero_and mask)

theorem specialOf_ne_zero (c2 : ℕ) : specialOf c2 ≠ 0 := by
  have hall : ∀ i : Fin 16, specialchar[i] ≠ 0 := by decide
  exact hall ⟨(c2 &&& 0xf) % 16, Nat.mod_lt _ (by decide)⟩

theorem color_lt (c2 : ℕ) (h : c2 &&& 0x0e ≠ 0x0e) : (c2 &&& 0x0e) >>> 1 < NUM_FG_COL := by
  have hall : ∀ i : Fin 16, i.val &&& 0x0e ≠ 0x0e → (i.val &&& 0x0e) >>> 1 < NUM_FG_COL := by decide
  have hlt : c2 &&& 0x0e < 16 := Nat.and_lt_two_pow c2 (n := 4) (by decide)
  have hsame : c2 &&& 0x0e &&& 0x0e = c2 &&& 0x0e := by rw [Nat.and_assoc, Nat.and_self]
  have hcode := hall ⟨_, hlt⟩
  dsimp only at hcode
  rw [hsame] at hcode
  exact hcode h

theorem column_le (c2 : ℕ) : ((c2 &&& 0x0e) >>> 1) * 4 ≤ CC_COLUMNS := by
  have hlt : c2 &&& 0x0e < 16 := Nat.and_lt_two_pow c2 (n := 4) (by decide)
  rw [Nat.shiftRight_eq_div_pow]
  change (c2 &&& 0x0e) / 2 ^ 1 * 4 ≤ 32
  omega

theorem pacCommand_proper (c1 c2 : ℕ) : (pacCommand channel c1 c2).Proper := by
  unfold pacCommand
  by_cases hinvalid : c1 = 0x10 ∧ 0x5f < c2
  · rw [if_pos hinvalid]
    trivial
  · rw [if_neg hinvalid]
    cases rowOf c1 c2 with
    | none => trivial
    | some row =>
      constructor
      · split_ifs
        · exact column_le c2
        · exact Nat.zero_le _
      · split_ifs with hcolor
        · decide
        · exact color_lt c2 fun h => hcolor (.inr h)

theorem midrow_color_lt (c2 : ℕ) (h : c2 < 0x2e) (hlow : c2 &&& 0x20 ≠ 0) :
    (c2 &&& 0xe) >>> 1 < NUM_FG_COL := by
  have hall : ∀ i : Fin 0x2e, i.val &&& 0x20 ≠ 0 → (i.val &&& 0xe) >>> 1 < NUM_FG_COL := by decide
  exact hall ⟨c2, h⟩ hlow

theorem controlCommand_proper (c1 c2 : ℕ) : (controlCommand channel c1 c2).Proper := by
  unfold controlCommand
  by_cases hpac : c2 &&& 0x40 ≠ 0
  · rw [if_pos hpac]
    exact pacCommand_proper c1 c2
  · rw [if_neg hpac]
    split
    · trivial
    · split_ifs with hspecial hmidrow hlt
      · exact specialOf_ne_zero c2
      · exact midrow_color_lt c2 hlt hmidrow
      · exact (by decide : WHITE < NUM_FG_COL)
      · trivial
    · unfold miscCommand
      split <;> trivial
    · split_ifs <;> trivial
    · trivial

theorem commandOf_proper (data : UInt16) : (commandOf data).Proper := by
  unfold commandOf
  split_ifs with hchar hcontrol
  · exact ⟨chartbl_ne_zero (ne_zero_of_and (of_decide_eq_true hchar)), fun h => chartbl_ne_zero (ne_zero_of_and h)⟩
  · exact controlCommand_proper _ _
  · trivial

/-! ### The decoder -/

/-- Both memories are in bounds. -/
structure CcDecoder.Ok (d : CcDecoder) : Prop where
  on_buf : d.on_buf.Ok
  off_buf : d.off_buf.Ok

theorem open_ok : ccDecoderOpen.Ok := ⟨clear_ok, clear_ok⟩

theorem edit_ok (h : buf.Ok) (hproper : command.Proper) (hedit : command.edit buf = some buf') : buf'.Ok := by
  cases command with
  | write c1 c2 =>
    cases hedit
    unfold writeChars
    dsimp only
    split_ifs with hsecond
    · exact addChar_ok (addChar_ok h hproper.1) (hproper.2 hsecond)
    · exact addChar_ok h hproper.1
  | move channel row column underline italics color =>
    cases hedit
    exact setCursor_ok h hproper.1 hproper.2
  | special channel c =>
    cases hedit
    exact addChar_ok h hproper
  | midrow channel attr => exact applyAttribute_ok h hproper (chartbl_ne_zero (by decide)) hedit
  | tab channel tabsize =>
    cases hedit
    exact tab_ok h tabsize
  | idle | select _ | eraseDisplayed _ | eraseNonDisplayed _ | swap _ =>
    cases hedit
    exact h

theorem setChannel_ok (h : d.Ok) : (ccSetChannel d channel).Ok := ⟨h.on_buf, h.off_buf⟩

theorem hide_ok (h : d.Ok) : (ccHideDisplayed d).Ok := by
  unfold ccHideDisplayed
  split_ifs
  · exact ⟨h.on_buf, h.off_buf⟩
  · exact h

theorem show_ok (h : d.Ok) : (ccShowDisplayed d).Ok := by
  unfold ccShowDisplayed
  dsimp only
  split_ifs
  · exact ⟨(hide_ok h).on_buf, (hide_ok h).off_buf⟩
  · exact h

theorem swap_ok (h : d.Ok) : (ccSwapBuffers d).Ok :=
  show_ok ⟨(hide_ok h).off_buf, (hide_ok h).on_buf⟩

theorem setActive_ok (h : d.Ok) (hbuf : buf.Ok) : (setActiveCcbuffer d buf).Ok := by
  refine ⟨h.on_buf, fun channel row => ?_⟩
  have hset : (setActiveCcbuffer d buf).off_buf.channel.get channel =
      if (d.off_buf.channel_no : ℕ) = channel then buf else d.off_buf.channel.get channel :=
    Vector.getElem_set d.off_buf.channel_no.isLt channel.isLt
  rw [hset]
  split_ifs
  · exact hbuf row
  · exact h.off_buf channel row

theorem edit_active_ok (h : d.Ok) (hproper : command.Proper)
    (hexec : (command.edit (activeCcbuffer d)).map (setActiveCcbuffer d) = some d') : d'.Ok := by
  obtain ⟨buf, hbuf, rfl⟩ := Option.map_eq_some_iff.1 hexec
  exact setActive_ok h (edit_ok (h.off_buf d.off_buf.channel_no) hproper hbuf)

theorem exec_ok (h : d.Ok) (hproper : command.Proper) (hexec : d.exec command = some d') : d'.Ok := by
  cases command with
  | idle =>
    cases hexec
    exact h
  | write c1 c2 => exact edit_active_ok h hproper hexec
  | select channel =>
    cases hexec
    exact setChannel_ok h
  | move channel row column underline italics color => exact edit_active_ok (setChannel_ok h) hproper hexec
  | special channel c => exact edit_active_ok (setChannel_ok h) hproper hexec
  | midrow channel attr => exact edit_active_ok (setChannel_ok h) hproper hexec
  | tab channel tabsize => exact edit_active_ok (setChannel_ok h) hproper hexec
  | eraseDisplayed channel =>
    cases hexec
    exact ⟨clear_ok, (hide_ok (setChannel_ok h)).off_buf⟩
  | eraseNonDisplayed channel =>
    cases hexec
    exact ⟨h.on_buf, clear_ok⟩
  | swap channel =>
    cases hexec
    exact swap_ok (setChannel_ok h)

theorem decode_ok {t : CcDecoder} (h : d.Ok) (hdecode : ccDecodeEIA608 d data = some t) : t.Ok := by
  rw [ccDecodeEIA608_eq] at hdecode
  split_ifs at hdecode
  · cases hdecode
    exact h
  · obtain ⟨u, hexec, rfl⟩ := Option.map_eq_some_iff.1 hdecode
    have hu := exec_ok h (commandOf_proper data) hexec
    exact ⟨hu.on_buf, hu.off_buf⟩

/-! ## All calls -/

/-- A mid-row attribute that is executed finds the cursor in front of the end of the row. -/
def CursorOnRow (d : CcDecoder) (data : UInt16) : Prop :=
  ∀ channel attr, commandOf data = .midrow channel attr → data ≠ d.lastcode →
    ((d.off_buf.channel.get channel).rows.get (d.off_buf.channel.get channel).rowpos).pos < CC_COLUMNS

/-- Every row is drawn with each of its cells that is not transparent once, in their order, with the attributes of
the nearest cell at or before it that changes them. -/
def CcMemory.Renders (mem : CcMemory) : Prop :=
  ∀ (channel : Fin CC_CHANNELS) (row : Fin CC_ROWS) look rownum,
    ∃ draws, ccrowRender look ((mem.channel.get channel).rows.get row) rownum = some draws ∧
      draws.flatMap CcDraw.shown = (((mem.channel.get channel).rows.get row).visible 0).map
        ((mem.channel.get channel).rows.get row).shownAt

/-- The calls store nothing out of bounds, and on the way both memories are in bounds and rendered as they should
be. -/
def InBounds (calls : List (List UInt8)) : Prop :=
  (Runs.run decodeCc ccDecoderOpen calls).isSome ∧ ∀ pairs d, pairs <+: calls.flatMap ccPairs →
    decodeAll ccDecoderOpen pairs = some d → d.Ok ∧ d.on_buf.Renders ∧ d.off_buf.Renders

theorem CcMemory.Ok.renders {mem : CcMemory} (h : mem.Ok) : mem.Renders := fun channel row look rownum =>
  exists_render (h channel row) look rownum

theorem isSome_applyAttribute_iff {space : ℕ} : (ccbufApplyAttribute buf attr space).isSome ↔
    (buf.rows.get buf.rowpos).pos < CC_COLUMNS := by
  unfold ccbufApplyAttribute
  dsimp only
  split_ifs with hpos
  · exact iff_of_true rfl hpos
  · exact iff_of_false Bool.false_ne_true hpos

theorem cursorOnRow_iff (d : CcDecoder) (data : UInt16) :
    CursorOnRow d data ↔ (ccDecodeEIA608 d data).isSome := by
  rw [ccDecodeEIA608_eq]
  unfold CursorOnRow
  split_ifs with hagain
  · exact iff_of_true (fun _ _ _ hne => absurd hagain.2 hne) rfl
  · rw [Option.isSome_map]
    generalize hcommand : commandOf data = command at *
    cases command with
    | midrow channel attr =>
      -- a mid-row attribute is a control code
      have hcontrol : isControl data = true := by
        unfold commandOf at hcommand
        by_contra hnot
        rw [if_neg hnot] at hcommand
        split_ifs at hcommand
      have hlast : data ≠ d.lastcode := fun h => hagain ⟨hcontrol, h⟩
      have hexec : (d.exec (.midrow channel attr)).isSome ↔
          ((d.off_buf.channel.get channel).rows.get (d.off_buf.channel.get channel).rowpos).pos < CC_COLUMNS := by
        change ((ccbufApplyAttribute (d.off_buf.channel.get channel) attr (chartbl 0x20)).map _).isSome ↔ _
        rw [Option.isSome_map, isSome_applyAttribute_iff]
      rw [hexec]
      constructor
      · intro h
        exact h channel attr rfl hlast
      · rintro h _ _ ⟨⟩ -
        exact h
    | idle | write _ _ | select _ | move _ _ _ _ _ _ | special _ _ | tab _ _ | eraseDisplayed _
    | eraseNonDisplayed _ | swap _ => exact iff_of_true nofun rfl

/-- Everything stays in bounds if and only if no mid-row attribute finds the cursor behind the row. -/
theorem inBounds_iff (calls : List (List UInt8)) :
    InBounds calls ↔ Runs.Guarded ccDecodeEIA608 CursorOnRow ccDecoderOpen (calls.flatMap ccPairs) := by
  rw [Runs.guarded_iff_isSome cursorOnRow_iff]
  unfold InBounds
  rw [run_decodeCc_eq]
  refine ⟨fun h => h.1, fun h => ⟨h, fun pairs d _ hrun => ?_⟩⟩
  have hok : d.Ok := Runs.run_invariant (fun _ _ _ hs hstep => decode_ok hs hstep) open_ok hrun
  exact ⟨hok, hok.on_buf.renders, hok.off_buf.renders⟩

/-- A row is filled from its last indentation on, and then comes a mid-row attribute. -/
theorem not_inBounds : ¬InBounds [[0xff, 0x94, 0x5e, 0, 0, 0, 0xff, 0xc1, 0xc1, 0, 0, 0, 0xff, 0xc1, 0xc1, 0, 0, 0,
    0xff, 0x91, 0x20]] := by
  intro h
  exact absurd h.1 (by decide +kernel)

end Xine.Cc
