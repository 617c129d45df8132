import ChatReactor.LogStreamProofs
import ChatReactor.Logging

/-!
# The end of a record

`finish` inserts `" - "`, the name of the file, `':'`, the line and the newline like anything else, so that each of them is
dropped if it does not fit. The newline asks for two bytes. Nothing between the name and the newline can make the stream
full but the `':'`, so that the length after the name decides (`closing_spec`), which the length before and the name give
(`named_spec`).
-/

namespace ChatReactor

open BoundedLog Decimal

/-- The offer of a string. -/
def whole (text : List UInt8) : Offer UInt8 := ⟨text, text.length + 1, Nat.lt_succ_self _⟩

@[simp] theorem whole_text (text : List UInt8) : (whole text).text = text := rfl
@[simp] theorem whole_need (text : List UInt8) : (whole text).need = text.length + 1 := rfl

theorem toInt_ofNat_le (n : Nat) : (Int32.ofNat n).toInt ≤ n := by
  have hsize : Int32.size = 4294967296 := rfl
  rw [Int32.toInt_ofNat', hsize, Int.bmod_def]
  split <;> omega

namespace LogStream
variable {s s' : LogStream} {l : Log UInt8 kSmallBuffer} {str : List UInt8} {len : Nat}

/-- `append` is the insertion of a piece. -/
theorem append_shows (h : s.Shows l) {size : Int32} (hsize : size.toInt ≤ str.length) :
    ∃ s', s.append str size = some s' ∧
      s'.Shows (l.offer ⟨StringPiece.text ⟨str, size, hsize⟩, toSize size + 1, StringPiece.text_lt ⟨str, size, hsize⟩⟩) :=
  insertPiece_shows h ⟨str, size, hsize⟩

/-- The first `len` bytes behind a pointer. -/
theorem append_ofNat_shows (h : s.Shows l) (hle : len ≤ str.length) (hint : len < 2 ^ 31) :
    ∃ s', s.append str (Int32.ofNat len) = some s' ∧ s'.Shows (l.offer (whole (str.take len))) := by
  have hsize : toSize (Int32.ofNat len) = len := by
    rw [toSize, Int32.toInt_ofNat_of_lt hint]
    omega
  rw [append, hsize]
  exact bufferAppend_shows h (congrArg (· + 1) (List.length_take_of_le hle)) fun _ => ⟨hle, rfl⟩

theorem insertT_shows (h : s.Shows l) (hlen : (cString str).length = len) (hint : len < 2 ^ 31) :
    ∃ s', insertT s str len = some s' ∧ s'.Shows (l.offer (whole (cString str))) := by
  have htake : cString str = str.take len := hlen ▸ cString_eq_take str
  rw [insertT, check_of hlen, htake]
  exact append_ofNat_shows h (hlen ▸ length_cString_le str) hint

/-! ## A stream that is not full -/

/-- A byte is left. -/
def NotFull (s : LogStream) : Prop := ∃ l, s.Shows l

theorem NotFull.insertT (h : s.NotFull) (hs' : insertT s str len = some s') : s'.NotFull := by
  obtain ⟨l, h⟩ := h
  simp only [ChatReactor.insertT, Option.bind_eq_bind, Option.bind_eq_some_iff, check_eq_some] at hs'
  obtain ⟨_, hlen, happend⟩ := hs'
  have hle := length_cString_le str
  have hint := toInt_ofNat_le len
  obtain ⟨s₁, hs₁, hshows⟩ := append_shows h (show (Int32.ofNat len).toInt ≤ str.length by omega)
  obtain rfl := Option.some.inj (hs₁.symm.trans happend)
  exact ⟨_, hshows⟩

variable {F D : Type} (pf : Printf F D)

theorem NotFull.insertAll (h : s.NotFull) {items : List (Item F D)} (hs' : s.insertAll pf items = some s') : s'.NotFull := by
  obtain ⟨l, h⟩ := h
  obtain ⟨s₁, hs₁, hshows⟩ := insertAll_shows pf h items
  obtain rfl := Option.some.inj (hs₁.symm.trans hs')
  exact ⟨_, hshows⟩

theorem NotFull.formatTime {utc : Utc} {zone : TimeZone} {th th' : LogThread} {time : Int} (h : s.NotFull)
    (hs' : formatTime utc zone th time s = some (th', s')) : s'.NotFull := by
  simp only [ChatReactor.formatTime, Option.bind_eq_bind, Option.bind_eq_some_iff] at hs'
  obtain ⟨th₁, -, us, -, s₁, hs₁, s₂, hs₂, hpure⟩ := hs'
  cases hpure
  exact (h.insertT hs₁).insertT hs₂

end LogStream

section
variable {F D : Type} {pf : Printf F D} {utc : Utc}

theorem Impl.new_notFull {env : LogEnv} {level : LogLevel} {savedErrno line : Int32} {file : SourceFile} {impl : Impl}
    (h : Impl.new pf utc env level savedErrno file line = some impl) :
    impl.stream.NotFull ∧ impl.basename = file := by
  simp only [Impl.new, Option.bind_eq_bind, Option.bind_eq_some_iff] at h
  obtain ⟨⟨th, s₁⟩, hs₁, s₂, hs₂, s₃, hs₃, s₄, hs₄, hpure⟩ := h
  cases hpure
  refine ⟨?_, rfl⟩
  have hnew : (LogStream.new env.data).NotFull := ⟨_, LogStream.new_shows env.data⟩
  have h₃ : s₃.NotFull := ((hnew.formatTime hs₁).insertT hs₂).insertT hs₃
  split_ifs at hs₄
  · exact h₃.insertAll pf hs₄
  · cases hs₄
    exact h₃

theorem Logger.new_notFull {env : LogEnv} {file : SourceFile} {line : Int32} {args : LoggerArgs} {impl : Impl}
    (h : Logger.new pf utc env file line args = some impl) : impl.stream.NotFull ∧ impl.basename = file := by
  cases args with
  | plain => exact Impl.new_notFull h
  | level level => exact Impl.new_notFull h
  | sys toAbort errno => exact Impl.new_notFull h
  | func level func =>
    simp only [Logger.new, Option.bind_eq_bind, Option.bind_eq_some_iff] at h
    obtain ⟨impl₁, himpl₁, s, hs, hpure⟩ := h
    cases hpure
    obtain ⟨hfull, hname⟩ := Impl.new_notFull himpl₁
    exact ⟨hfull.insertAll pf hs, hname⟩

/-! ## The end -/

/-- A character asks for two bytes. -/
theorem offer_char_taken {l : Log UInt8 kSmallBuffer} (c : UInt8) (h : l.content.length ≤ 3998) :
    (l.offer (Item.offer pf (.char c))).content = l.content ++ [c] := Log.offer_taken (Nat.add_le_add_right h 2)

theorem offer_char_dropped {l : Log UInt8 kSmallBuffer} (c : UInt8) (h : l.content.length = 3999) :
    l.offer (Item.offer pf (.char c)) = l := Log.offer_dropped (h ▸ (by decide : 4000 < 3999 + 2))

/-- The newline gets into a log behind `':'` and a line if it has at most 3997 bytes before. -/
theorem closing_spec (l : Log UInt8 kSmallBuffer) (line : Int32) :
    (l.offers ([.char 58, .int line, .char 10].map (Item.offer pf))).content.getLast? = some 10 ↔
      l.content.length ≤ 3997 ∨ l.content.length = 3999 ∧ l.content.getLast? = some 10 := by
  have hroom := l.room
  have hline : (decimal line.toInt).length ≤ 11 := by
    have hlt := line.toInt_lt
    have hge := line.le_toInt
    exact length_decimal_le (by decide) (by omega)
  simp only [kSmallBuffer] at hroom
  simp only [List.map_cons, List.map_nil, Log.offers_cons, Log.offers_nil]
  generalize hl₁ : l.offer (Item.offer pf (.char 58)) = l₁
  generalize hl₂ : l₁.offer (Item.offer pf (.int line)) = l₂
  by_cases h : l.content.length ≤ 3998
  · have hcontent : l₁.content = l.content ++ [58] := hl₁ ▸ offer_char_taken 58 h
    have hlen : l₁.content.length = l.content.length + 1 := by rw [hcontent, List.length_append, List.length_singleton]
    by_cases hle : l.content.length ≤ 3997
    · -- the line needs much more room than it takes
      have hlen₂ : l₂.content.length ≤ 3998 := by
        by_cases hfits : l₁.content.length + 32 ≤ 4000
        · have htaken : l₂.content = l₁.content ++ decimal line.toInt := hl₂ ▸ Log.offer_taken hfits
          rw [htaken, List.length_append]
          omega
        · rw [← hl₂, Log.offer_dropped (Nat.not_le.1 hfits)]
          omega
      rw [offer_char_taken 10 hlen₂, List.getLast?_concat]
      exact iff_of_true rfl (.inl hle)
    · have hdropped : l₂ = l₁ := hl₂ ▸ Log.offer_dropped (show 4000 < l₁.content.length + 32 by omega)
      rw [offer_char_dropped 10 (by rw [hdropped]; omega), hdropped, hcontent, List.getLast?_concat]
      exact iff_of_false (by decide) (by omega)
  · have hend : l.content.length = 3999 := by omega
    have hdropped₁ : l₁ = l := hl₁ ▸ offer_char_dropped 58 hend
    have hdropped₂ : l₂ = l₁ := hl₂ ▸ Log.offer_dropped (show 4000 < l₁.content.length + 32 by rw [hdropped₁]; omega)
    rw [offer_char_dropped 10 (by rw [hdropped₂, hdropped₁, hend]), hdropped₂, hdropped₁]
    exact ⟨fun hlast => .inr ⟨hend, hlast⟩, fun hcase => (hcase.resolve_left (by omega)).2⟩

/-- What the bytes before `finish` and the name of the file must be for a newline at the end: there is room for it behind the
name, or the name, or what was there before, fills the stream and ends with one. -/
def NewlineKept (before : List UInt8) (name : SourceFile) : Prop :=
  let b := LogStream.toSize name.size
  -- `" - "` asks for four bytes
  let m := if before.length ≤ 3996 then before.length + 3 else before.length
  m ≤ 3997 ∧ m + b ≠ 3998 ∧ m + b ≠ 3999 ∨ m + b = 3999 ∧ (name.data.take b).getLast? = some 10 ∨
    before.length = 3999 ∧ before.getLast? = some 10

/-- A piece that fits in the buffer has the length that it says. -/
theorem StringPiece.text_of_lt {v : StringPiece} (h : LogStream.toSize v.length < kSmallBuffer) :
    v.text = v.ptr.take (LogStream.toSize v.length) ∧ v.text.length = LogStream.toSize v.length := by
  have hle := v.length_le
  have hpos : 0 ≤ v.length.toInt := by
    by_contra hneg
    exact absurd h (Nat.not_lt.2 (Nat.le_trans (by decide) (LogStream.toSize_of_neg (Int.not_le.1 hneg))))
  rw [text, LogStream.toSize_of_nonneg hpos, List.length_take]
  exact ⟨rfl, by omega⟩

/-- The log behind `" - "`: its length, and its end if it is full. -/
theorem dashed_spec (l : Log UInt8 kSmallBuffer) {l₁ : Log UInt8 kSmallBuffer}
    (h : l.offer (Item.offer pf (.charPtr (some (bytesOf " - ")))) = l₁) :
    l₁.content.length = (if l.content.length ≤ 3996 then l.content.length + 3 else l.content.length) ∧
      (l₁.content.length = 3999 ∧ l₁.content.getLast? = some 10 ↔ l.content.length = 3999 ∧ l.content.getLast? = some 10) := by
  by_cases hfits : l.content.length ≤ 3996
  · have htaken : l₁.content = l.content ++ [32, 45, 32] := h ▸ Log.offer_taken (Nat.add_le_add_right hfits 4)
    rw [htaken, if_pos hfits, List.length_append, List.getLast?_append]
    exact ⟨rfl, iff_of_false (by simp) (by omega)⟩
  · have hdropped : l₁ = l := h ▸ Log.offer_dropped (Nat.add_lt_add_right (Nat.not_le.1 hfits) 4)
    rw [hdropped, if_neg hfits]
    exact ⟨rfl, Iff.rfl⟩

/-- The log behind the name of the file. -/
theorem named_spec (l : Log UInt8 kSmallBuffer) (name : SourceFile) (hsize : name.size.toInt ≤ name.data.length)
    {l₁ l₂ : Log UInt8 kSmallBuffer} (h₁ : l.offer (Item.offer pf (.charPtr (some (bytesOf " - ")))) = l₁)
    (h₂ : l₁.offer ⟨StringPiece.text ⟨name.data, name.size, hsize⟩, LogStream.toSize name.size + 1, StringPiece.text_lt _⟩ = l₂) :
    (l₂.content.length ≤ 3997 ∨ l₂.content.length = 3999 ∧ l₂.content.getLast? = some 10) ↔ NewlineKept l.content name := by
  obtain ⟨hlen, hlast⟩ := dashed_spec l h₁
  simp only [NewlineKept, ← hlen, ← hlast]
  have hroom : l₁.content.length < 4000 := l₁.room
  by_cases hfits : l₁.content.length + LogStream.toSize name.size ≤ 3999
  · obtain ⟨htext, hb⟩ := StringPiece.text_of_lt (v := ⟨name.data, name.size, hsize⟩) (Nat.lt_of_le_of_lt (Nat.le_add_left _ _)
      (Nat.lt_succ_of_le hfits))
    have hcontent : l₂.content = l₁.content ++ name.data.take (LogStream.toSize name.size) := by
      rw [← h₂, Log.offer_taken (Nat.succ_le_succ hfits)]
      exact congrArg (l₁.content ++ ·) htext
    rw [htext] at hb
    dsimp only at hb
    generalize name.data.take (LogStream.toSize name.size) = text at hcontent hb ⊢
    rw [hcontent, List.length_append, hb, List.getLast?_append]
    -- an empty name leaves the end as it was
    rcases List.eq_nil_or_concat text with rfl | ⟨front, c, rfl⟩
    · simp only [← hb, List.length_nil, Nat.add_zero, List.getLast?_nil, Option.none_or]
      grind
    · rw [List.length_concat] at hb
      simp only [List.concat_eq_append, List.getLast?_concat, Option.some_or]
      grind
  · have hdropped : l₂ = l₁ := h₂ ▸ Log.offer_dropped (Nat.succ_lt_succ (Nat.not_le.1 hfits))
    rw [hdropped]
    grind

/-- **A record ends with a newline** exactly if `NewlineKept` holds of what is in the stream when the logger is destroyed and
of the name of its file. -/
theorem newline_iff (log : Logger pf utc) (items : List (Item F D)) :
    ∃ (s : LogStream) (out : List UInt8), log.impl.stream.insertAll pf items = some s ∧
      log.impl.output pf items = some (out, decide (log.impl.level = .fatal)) ∧
      (out.getLast? = some 10 ↔ NewlineKept s.buffer.toString log.impl.basename) := by
  obtain ⟨env, file, line, args, hmade⟩ := log.made
  obtain ⟨⟨l, hl⟩, hname⟩ := Logger.new_notFull hmade
  obtain ⟨s₁, hs₁, h₁⟩ := LogStream.insertAll_shows pf hl items
  obtain ⟨s₂, hs₂, h₂⟩ := LogStream.shl_shows pf h₁ (.charPtr (some (bytesOf " - ")))
  have hsize : log.impl.basename.size.toInt ≤ log.impl.basename.data.length := by
    rw [hname]
    exact toInt_ofNat_le _
  obtain ⟨s₃, hs₃, h₃⟩ := LogStream.append_shows h₂ hsize
  obtain ⟨s₄, hs₄, h₄⟩ := LogStream.insertAll_shows pf h₃ [.char 58, .int log.impl.line, .char 10]
  refine ⟨s₁, s₄.buffer.toString, hs₁, ?_, ?_⟩
  · simp only [Impl.output, Impl.finish, Impl.named, hs₁, hs₂, hs₃, hs₄, Option.bind_eq_bind, Option.bind_some]
    rfl
  · rw [h₄, closing_spec, h₁]
    exact named_spec _ _ hsize rfl rfl

end

/-- A program that inserts no floating-point number. -/
def noDoubles : Printf Unit Unit := ⟨id, fun _ => [], fun _ => Nat.zero_lt_succ _⟩

/-- The first record of the thread 7, a second after the epoch. -/
def firstRecord : LogEnv := ⟨⟨none⟩, LogThread.start (bytesOf "    7 ") 6, 1000000, fun _ => [], fun _ => 0⟩

/-- `19700101 00:00:01.000000Z     7 INFO  ` is 38 bytes; a string of 3961 more fills the stream. -/
theorem newline_lost : ∃ log : Logger noDoubles Utc.exact,
    (log.impl.output noDoubles [.string (List.replicate 3961 120)]).map (fun out => (out.1.length, out.1.getLast?)) =
      some (3999, some 120) := by
  have heval : (Logger.new noDoubles Utc.exact firstRecord (SourceFile.new (bytesOf "a.cc")) 5 .plain).bind (fun impl =>
      (impl.output noDoubles [.string (List.replicate 3961 120)]).map fun out => (out.1.length, out.1.getLast?)) =
        some (3999, some 120) := by
    decide +kernel
  obtain ⟨impl, himpl, hout⟩ := Option.bind_eq_some_iff.1 heval
  exact ⟨⟨impl, _, _, _, _, himpl⟩, hout⟩

end ChatReactor
