import Xine.Mrl.Unescape

/-!
# The input plugin of an MRL

The start of `xine_open_internal` of `xine.c`: the MRL up to a `#` is given to the input plugins, and the next `#`
is looked for when none of them opens it. `find_input_plugin` and the `open` of an input plugin are parameters;
the log, the `eject_class` and the meta info are left out.
-/

namespace Xine.Mrl

/-- The errors of a stream that the loop sets. -/
inductive XineError where
  | none
  | noInputPlugin
  | inputFailed
  deriving DecidableEq

/-- `xine_stream_t`, and the input sources that `find_input_plugin` has been called with. -/
structure Stream (I : Type*) where
  input_plugin : Option I
  err : XineError
  tried : List Str

/-- Where `strchr` finds a character, from a place in the string on. -/
def strchr (s : Str) (c : Char) (p : ℕ) : Option ℕ := (List.range' p (s.length - p)).find? fun i => s[i]? = some c

section Loop

variable {I : Type*} (find_input_plugin : Str → Option I) (opens : I → Bool)

/-- The body of the loop, for one input source. A plugin that cannot open it is disposed of. -/
def tryInput (stream : Stream I) (input_source : Str) : Stream I :=
  match find_input_plugin input_source with
  | some input_plugin =>
    if opens input_plugin then
      { stream with input_plugin := some input_plugin, tried := stream.tried ++ [input_source] }
    else
      { input_plugin := none, err := .inputFailed, tried := stream.tried ++ [input_source] }
  | none => { stream with input_plugin := none, tried := stream.tried ++ [input_source] }

/-- The loop, in a number of rounds: the stream and `stream_setup` behind it. -/
def inputLoop (mrl : Str) : ℕ → Stream I → ℕ → Option (Stream I × ℕ)
  | 0, stream, stream_setup => if stream_setup < mrl.length then none else some (stream, stream_setup)
  | rounds + 1, stream, stream_setup =>
    if stream_setup < mrl.length then
      let found := (strchr mrl '#' stream_setup).getD mrl.length
      let tried := tryInput find_input_plugin opens stream (mrl.take found)
      if tried.input_plugin.isSome then
        some (tried, found)
      else
        inputLoop mrl rounds tried (if found < mrl.length then found + 1 else found)
    else
      some (stream, stream_setup)

/-- `xine_open_internal` up to the options: the stream, and what is behind the `#` when there is an input
plugin. `xine_close_internal` has set the one of the stream to null. -/
def xineOpenInternal (err : XineError) (mrl : CString) : Option (Stream I × Option Str) :=
  (inputLoop find_input_plugin opens mrl.1 mrl.1.length ⟨none, err, []⟩ 0).map fun r =>
    if r.1.input_plugin.isSome then (r.1, some (mrl.1.drop (r.2 + 1)))
    else ({ r.1 with err := .noInputPlugin }, none)

end Loop

/-! ## What it is for -/

/-- The places of a `#`. -/
def hashes (mrl : Str) : List ℕ := (List.range mrl.length).filter fun i => mrl[i]? = some '#'

/-- Where an input source can end. -/
def sourceEnds (mrl : Str) : List ℕ := hashes mrl ++ [mrl.length]

/-- The candidates that are tried until one is accepted, with that one. -/
def attempts {α : Type*} (accepts : α → Bool) : List α → List α
  | [] => []
  | a :: as => if accepts a then [a] else a :: attempts accepts as

section Splits

variable {I : Type*} (find_input_plugin : Str → Option I) (opens : I → Bool)

/-- The input plugin that opens the MRL up to a place. -/
def accepted (mrl : Str) (i : ℕ) : Option I := (find_input_plugin (mrl.take i)).filter opens

/-- The input sources are tried from left to right, each once, and the first that is accepted is taken, with
what is behind its `#` as options. -/
def Splits (err : XineError) (mrl : CString) : Prop :=
  ∃ stream options, xineOpenInternal find_input_plugin opens err mrl = some (stream, options) ∧
    stream.tried = (attempts (fun i => (accepted find_input_plugin opens mrl.1 i).isSome) (sourceEnds mrl.1)).map
      (fun i => mrl.1.take i) ∧
    stream.input_plugin = (sourceEnds mrl.1).findSome? (accepted find_input_plugin opens mrl.1) ∧
    options = ((sourceEnds mrl.1).find? fun i => (accepted find_input_plugin opens mrl.1 i).isSome).map
      (fun i => mrl.1.drop (i + 1))

end Splits

/-! ## Candidates -/

section Attempts

variable {α : Type*} {accepts : α → Bool} {l l' : List α}

theorem attempts_eq_self (h : ∀ a ∈ l, accepts a = false) : attempts accepts l = l := by
  induction l with
  | nil => rfl
  | cons a l ih =>
    rw [attempts, h a List.mem_cons_self, if_neg Bool.false_ne_true, ih fun b hb => h b (List.mem_cons_of_mem a hb)]

theorem attempts_append (h : ∀ a ∈ l, accepts a = false) :
    attempts accepts (l ++ l') = l ++ attempts accepts l' := by
  induction l with
  | nil => rfl
  | cons a l ih =>
    rw [List.cons_append, attempts, h a List.mem_cons_self, if_neg Bool.false_ne_true,
      ih fun b hb => h b (List.mem_cons_of_mem a hb), List.cons_append]

theorem attempts_append_of_mem {a : α} (ha : a ∈ l) (h : accepts a = true) :
    attempts accepts (l ++ l') = attempts accepts l := by
  induction l with
  | nil => exact absurd ha List.not_mem_nil
  | cons b l ih =>
    rw [List.cons_append, attempts, attempts]
    split_ifs with hb
    · rfl
    · rcases List.mem_cons.1 ha with rfl | ha
      · exact absurd h hb
      · rw [ih ha]

end Attempts

variable {I : Type*} {find_input_plugin : Str → Option I} {opens : I → Bool} {mrl : Str} {p e : ℕ}
  {stream : Stream I}

/-! ## The places of the loop -/

/-- The places of a `#` from `p` on. -/
def hashesFrom (mrl : Str) (p : ℕ) : List ℕ :=
  (List.range' p (mrl.length - p)).filter fun i => mrl[i]? = some '#'

theorem hashesFrom_zero (mrl : Str) : hashesFrom mrl 0 = hashes mrl := by
  rw [hashesFrom, hashes, Nat.sub_zero, List.range_eq_range']

theorem strchr_eq (mrl : Str) (p : ℕ) : strchr mrl '#' p = (hashesFrom mrl p).head? := by
  rw [hashesFrom, List.head?_filter, strchr]

theorem hashesFrom_step (hp : p < mrl.length) :
    hashesFrom mrl p = if mrl[p]? = some '#' then p :: hashesFrom mrl (p + 1) else hashesFrom mrl (p + 1) := by
  obtain ⟨n, hn⟩ : ∃ n, mrl.length - p = n + 1 := ⟨mrl.length - p - 1, by omega⟩
  have hnext : mrl.length - (p + 1) = n := by omega
  unfold hashesFrom
  rw [hn, hnext, List.range'_succ, List.filter_cons]
  split_ifs with h h' h'
  · rfl
  · exact absurd (of_decide_eq_true h) h'
  · exact absurd (decide_eq_true h') h
  · rfl

theorem hashesFrom_cases (mrl : Str) (p : ℕ) :
    hashesFrom mrl p = [] ∨ ∃ q, p ≤ q ∧ q < mrl.length ∧ mrl[q]? = some '#' ∧
      hashesFrom mrl p = q :: hashesFrom mrl (q + 1) := by
  induction hn : mrl.length - p generalizing p with
  | zero =>
    left
    rw [hashesFrom, hn]
    rfl
  | succ n ih =>
    rw [hashesFrom_step (by omega)]
    split_ifs with hhash
    · exact Or.inr ⟨p, le_rfl, by omega, hhash, rfl⟩
    · exact (ih (p + 1) (by omega)).imp_right fun ⟨q, hpq, hq⟩ => ⟨q, by omega, hq⟩

/-- The MRL is not empty and does not end with a `#`. -/
def LooksOn (mrl : Str) : Prop := ∃ c, mrl.getLast? = some c ∧ c ≠ '#'

instance instDecidableLooksOn (mrl : Str) : Decidable (LooksOn mrl) :=
  decidable_of_iff (mrl.getLast?.any fun c => c ≠ '#') (by simp [LooksOn, Option.any_eq_true])

/-- The places that the loop goes to as long as no input source is accepted. -/
def reached (mrl : Str) (p : ℕ) : List ℕ := hashesFrom mrl p ++ if LooksOn mrl then [mrl.length] else []

theorem not_looksOn_of_hash (h : mrl[p]? = some '#') (hp : p + 1 = mrl.length) : ¬LooksOn mrl := by
  rintro ⟨c, hlast, hc⟩
  rw [List.getLast?_eq_getElem?, ← hp, Nat.add_sub_cancel, h] at hlast
  exact hc (Option.some.inj hlast).symm

theorem looksOn_of_hashesFrom (hp : p < mrl.length) (h : hashesFrom mrl p = []) : LooksOn mrl := by
  have hlast : mrl.length - 1 < mrl.length := by omega
  refine ⟨mrl[mrl.length - 1], ?_, fun hhash => ?_⟩
  · rw [List.getLast?_eq_getElem?, List.getElem?_eq_getElem hlast]
  · -- the last character would be a `#` behind `p`
    have hmem : mrl.length - 1 ∈ hashesFrom mrl p := by
      refine List.mem_filter.2 ⟨List.mem_range'_1.2 (by omega), ?_⟩
      rw [List.getElem?_eq_getElem hlast, hhash]
      rfl
    rw [h] at hmem
    exact List.not_mem_nil hmem

/-! ## One input source -/

theorem tryInput_input_plugin (mrl : Str) (e : ℕ) (stream : Stream I) :
    (tryInput find_input_plugin opens stream (mrl.take e)).input_plugin =
      accepted find_input_plugin opens mrl e := by
  unfold tryInput accepted
  cases hfind : find_input_plugin (mrl.take e) with
  | none => rfl
  | some input_plugin =>
    dsimp only
    split_ifs with hopen
    · rw [Option.filter_some, if_pos hopen]
    · rw [Option.filter_some, if_neg hopen]

theorem tryInput_tried (stream : Stream I) (input_source : Str) :
    (tryInput find_input_plugin opens stream input_source).tried = stream.tried ++ [input_source] := by
  unfold tryInput
  cases find_input_plugin input_source with
  | none => rfl
  | some input_plugin =>
    dsimp only
    split_ifs <;> rfl

/-! ## The loop -/

/-- The input sources that end at these places are tried, until one is accepted. -/
def tryEnds (find_input_plugin : Str → Option I) (opens : I → Bool) (mrl : Str) :
    Stream I → List ℕ → Stream I × ℕ
  | stream, [] => (stream, mrl.length)
  | stream, e :: es =>
    let tried := tryInput find_input_plugin opens stream (mrl.take e)
    if tried.input_plugin.isSome then (tried, e) else tryEnds find_input_plugin opens mrl tried es

theorem inputLoop_end (rounds : ℕ) (stream : Stream I) :
    inputLoop find_input_plugin opens mrl rounds stream mrl.length = some (stream, mrl.length) := by
  cases rounds with
  | zero => rw [inputLoop, if_neg (Nat.lt_irrefl _)]
  | succ rounds => rw [inputLoop, if_neg (Nat.lt_irrefl _)]

theorem inputLoop_eq (rounds : ℕ) (hp : p ≤ mrl.length) (hrounds : mrl.length - p ≤ rounds)
    (hend : p = mrl.length → ¬LooksOn mrl) :
    inputLoop find_input_plugin opens mrl rounds stream p =
      some (tryEnds find_input_plugin opens mrl stream (reached mrl p)) := by
  -- each round goes behind the next `#`, or to the end
  induction rounds generalizing p stream with
  | zero =>
    obtain rfl : p = mrl.length := by omega
    rw [inputLoop_end, reached, if_neg (hend rfl), hashesFrom, Nat.sub_self]
    rfl
  | succ rounds ih =>
    rcases Nat.lt_or_ge p mrl.length with hlt | hge
    · rw [inputLoop, if_pos hlt, strchr_eq, reached]
      rcases hashesFrom_cases mrl p with hnil | ⟨q, hpq, hq, hhash, hcons⟩
      · -- the whole MRL is the last input source
        rw [hnil, if_pos (looksOn_of_hashesFrom hlt hnil)]
        dsimp only [List.head?_nil, Option.getD_none, List.nil_append]
        rw [tryEnds]
        split_ifs with hsome
        · rfl
        · exact absurd ‹mrl.length < mrl.length› (Nat.lt_irrefl _)
        · rw [inputLoop_end, tryEnds]
      · -- the input source ends in front of the `#`
        rw [hcons]
        dsimp only [List.head?_cons, Option.getD_some, List.cons_append]
        rw [tryEnds]
        by_cases hsome : (tryInput find_input_plugin opens stream (mrl.take q)).input_plugin.isSome = true
        · rw [if_pos hsome, if_pos hsome]
        · rw [if_neg hsome, if_neg hsome, if_pos hq]
          exact ih (by omega) (by omega) fun hlast => not_looksOn_of_hash hhash hlast
    · obtain rfl : p = mrl.length := by omega
      rw [inputLoop_end, reached, if_neg (hend rfl), hashesFrom, Nat.sub_self]
      rfl

theorem tryEnds_rejected {es : List ℕ} (h : accepted find_input_plugin opens mrl e = none) :
    tryEnds find_input_plugin opens mrl stream (e :: es) =
      tryEnds find_input_plugin opens mrl (tryInput find_input_plugin opens stream (mrl.take e)) es := by
  rw [tryEnds, tryInput_input_plugin, h]
  exact if_neg Bool.false_ne_true

theorem tryEnds_accepted {es : List ℕ} {input_plugin : I}
    (h : accepted find_input_plugin opens mrl e = some input_plugin) :
    tryEnds find_input_plugin opens mrl stream (e :: es) =
      (tryInput find_input_plugin opens stream (mrl.take e), e) := by
  rw [tryEnds, tryInput_input_plugin, h]
  exact if_pos rfl

theorem tryEnds_tried (es : List ℕ) (stream : Stream I) :
    (tryEnds find_input_plugin opens mrl stream es).1.tried = stream.tried ++
      (attempts (fun i => (accepted find_input_plugin opens mrl i).isSome) es).map (fun i => mrl.take i) := by
  induction es generalizing stream with
  | nil => exact (List.append_nil _).symm
  | cons e es ih =>
    rw [attempts]
    cases haccepted : accepted find_input_plugin opens mrl e with
    | none =>
      rw [tryEnds_rejected haccepted, ih, tryInput_tried, List.append_assoc, Option.isSome_none,
        if_neg Bool.false_ne_true]
      rfl
    | some input_plugin =>
      rw [tryEnds_accepted haccepted, tryInput_tried, Option.isSome_some, if_pos rfl]
      rfl

theorem tryEnds_input_plugin (es : List ℕ) (stream : Stream I) (h : stream.input_plugin = none) :
    (tryEnds find_input_plugin opens mrl stream es).1.input_plugin =
      es.findSome? (accepted find_input_plugin opens mrl) := by
  induction es generalizing stream with
  | nil => exact h
  | cons e es ih =>
    rw [List.findSome?_cons]
    have hinput := @tryInput_input_plugin I find_input_plugin opens mrl e stream
    cases haccepted : accepted find_input_plugin opens mrl e with
    | none => rw [tryEnds_rejected haccepted, ih _ (hinput.trans haccepted)]
    | some input_plugin => rw [tryEnds_accepted haccepted, hinput, haccepted]

theorem tryEnds_stream_setup (es : List ℕ) (stream : Stream I) (h : stream.input_plugin = none) :
    (if (tryEnds find_input_plugin opens mrl stream es).1.input_plugin.isSome
      then some (tryEnds find_input_plugin opens mrl stream es).2 else none) =
      es.find? fun i => (accepted find_input_plugin opens mrl i).isSome := by
  induction es generalizing stream with
  | nil =>
    rw [tryEnds, h]
    rfl
  | cons e es ih =>
    rw [List.find?_cons]
    have hinput := @tryInput_input_plugin I find_input_plugin opens mrl e stream
    cases haccepted : accepted find_input_plugin opens mrl e with
    | none => rw [tryEnds_rejected haccepted, ih _ (hinput.trans haccepted), Option.isSome_none]
    | some input_plugin =>
      rw [tryEnds_accepted haccepted, hinput, haccepted]
      rfl

/-! ## The MRL -/

theorem xineOpenInternal_eq (err : XineError) (mrl : CString) :
    ∃ stream options, xineOpenInternal find_input_plugin opens err mrl = some (stream, options) ∧
      stream.tried = (attempts (fun i => (accepted find_input_plugin opens mrl.1 i).isSome) (reached mrl.1 0)).map
        (fun i => mrl.1.take i) ∧
      stream.input_plugin = (reached mrl.1 0).findSome? (accepted find_input_plugin opens mrl.1) ∧
      options = ((reached mrl.1 0).find? fun i => (accepted find_input_plugin opens mrl.1 i).isSome).map
        (fun i => mrl.1.drop (i + 1)) := by
  have hend : 0 = mrl.1.length → ¬LooksOn mrl.1 := by
    rintro hzero ⟨c, hlast, -⟩
    rw [List.length_eq_zero_iff.1 hzero.symm] at hlast
    exact absurd hlast.symm (Option.some_ne_none c)
  have hloop := @inputLoop_eq I find_input_plugin opens mrl.1 0 ⟨none, err, []⟩ mrl.1.length
    (Nat.zero_le _) le_rfl hend
  have htried := @tryEnds_tried I find_input_plugin opens mrl.1 (reached mrl.1 0) ⟨none, err, []⟩
  have hinput := @tryEnds_input_plugin I find_input_plugin opens mrl.1 (reached mrl.1 0) ⟨none, err, []⟩ rfl
  have hsetup := @tryEnds_stream_setup I find_input_plugin opens mrl.1 (reached mrl.1 0) ⟨none, err, []⟩ rfl
  unfold xineOpenInternal
  rw [hloop, Option.map_some, ← hsetup]
  generalize tryEnds find_input_plugin opens mrl.1 ⟨none, err, []⟩ (reached mrl.1 0) = r at htried hinput
  split_ifs with hsome
  · exact ⟨r.1, _, rfl, htried, hinput, rfl⟩
  · exact ⟨_, none, rfl, htried, hinput, rfl⟩

theorem reached_zero (mrl : Str) : reached mrl 0 = hashes mrl ++ if LooksOn mrl then [mrl.length] else [] := by
  rw [reached, hashesFrom_zero]

theorem isSome_eq_false_of_not (h : ¬∃ i ∈ hashes mrl, (accepted find_input_plugin opens mrl i).isSome) :
    ∀ i ∈ hashes mrl, (accepted find_input_plugin opens mrl i).isSome = false := by
  intro i hi
  exact Bool.eq_false_iff.2 fun hsome => h ⟨i, hi, hsome⟩

/-- The MRL is split as it should be if and only if the MRL up to some `#` is accepted, or the MRL is not
empty and does not end with a `#`. -/
theorem splits_iff (find_input_plugin : Str → Option I) (opens : I → Bool) (err : XineError) (mrl : CString) :
    Splits find_input_plugin opens err mrl ↔
      (∃ i ∈ hashes mrl.1, (accepted find_input_plugin opens mrl.1 i).isSome) ∨ LooksOn mrl.1 := by
  obtain ⟨stream, options, heq, htried, hinput, hoptions⟩ :=
    @xineOpenInternal_eq I find_input_plugin opens err mrl
  rw [reached_zero] at htried hinput hoptions
  by_cases hlooks : LooksOn mrl.1
  · -- the loop goes to all places
    rw [if_pos hlooks] at htried hinput hoptions
    exact iff_of_true ⟨stream, options, heq, htried, hinput, hoptions⟩ (Or.inr hlooks)
  rw [if_neg hlooks, List.append_nil] at htried hinput hoptions
  by_cases hsome : ∃ i ∈ hashes mrl.1, (accepted find_input_plugin opens mrl.1 i).isSome
  · -- the whole is not needed
    refine iff_of_true ⟨stream, options, heq, ?_, ?_, ?_⟩ (Or.inl hsome)
    · obtain ⟨i, hi, haccepted⟩ := hsome
      rw [htried, sourceEnds, attempts_append_of_mem hi haccepted]
    · obtain ⟨i, hi, haccepted⟩ := hsome
      have hfound : ((hashes mrl.1).findSome? (accepted find_input_plugin opens mrl.1)).isSome = true :=
        List.findSome?_isSome_iff.2 ⟨i, hi, haccepted⟩
      obtain ⟨input_plugin, hfound⟩ := Option.isSome_iff_exists.1 hfound
      rw [hinput, sourceEnds, List.findSome?_append, hfound]
      rfl
    · obtain ⟨i, hi, haccepted⟩ := hsome
      have hfound : ((hashes mrl.1).find? fun i => (accepted find_input_plugin opens mrl.1 i).isSome).isSome = true :=
        List.find?_isSome.2 ⟨i, hi, haccepted⟩
      obtain ⟨j, hfound⟩ := Option.isSome_iff_exists.1 hfound
      rw [hoptions, sourceEnds, List.find?_append, hfound]
      rfl
  · -- the whole has not been tried
    have hnone := isSome_eq_false_of_not hsome
    refine iff_of_false ?_ (not_or.2 ⟨hsome, hlooks⟩)
    rintro ⟨stream', options', heq', htried', -, -⟩
    obtain ⟨rfl, rfl⟩ : stream = stream' ∧ options = options' :=
      Prod.mk.inj (Option.some.inj (heq.symm.trans heq'))
    have hlength := congrArg List.length (htried.symm.trans htried')
    rw [attempts_eq_self hnone, sourceEnds, attempts_append hnone, List.map_append, List.length_append,
      List.length_map, List.length_map] at hlength
    have hwhole : (attempts (fun i => (accepted find_input_plugin opens mrl.1 i).isSome) [mrl.1.length]).length = 1 := by
      rw [attempts]
      split_ifs <;> rfl
    omega

theorem not_null_hash : '\x00' ∉ "a#".toList := by decide

/-- An input plugin that takes the string `a#` is not asked for it. -/
theorem hash_at_end :
    (xineOpenInternal (fun s => if s = "a#".toList then some s else none) (fun _ => true) .none
      ⟨"a#".toList, not_null_hash⟩).map (fun r => (r.1.tried, r.1.err)) = some (["a".toList], .noInputPlugin) ∧
      ¬Splits (fun s => if s = "a#".toList then some s else none) (fun _ => true) .none
        ⟨"a#".toList, not_null_hash⟩ := by
  refine ⟨by decide, ?_⟩
  rintro ⟨stream, options, heq, htried, -, -⟩
  have hsame : stream.tried = ["a".toList] := by
    have hrun : (xineOpenInternal (fun s => if s = "a#".toList then some s else none) (fun _ => true) .none
        ⟨"a#".toList, not_null_hash⟩).map (fun r => r.1.tried) = some ["a".toList] := by decide
    rw [heq] at hrun
    exact Option.some.inj hrun
  exact absurd (hsame.symm.trans htried) (by decide)

end Xine.Mrl
