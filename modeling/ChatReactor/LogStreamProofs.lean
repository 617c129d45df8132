import ChatReactor.Lib.BoundedLog
import ChatReactor.LogStream

/-!
# What is in a `LogStream`

`Wrote b b' pos bytes` is all that is said of a store: the bytes stand at `pos`, in front of them nothing has changed, and
behind them there may be anything. An insertion is an offer to a bounded log (`Item.offer`): a string asks for one byte
more than it has, a number for 32. The stream refines that log (`shl_shows`).
-/

namespace ChatReactor

open Decimal

namespace FixedBuffer
variable {SIZE : Nat} {b b₁ b₂ : FixedBuffer SIZE} {pos : Nat} {xs ys : List UInt8}

structure Wrote (b b' : FixedBuffer SIZE) (pos : Nat) (bytes : List UInt8) : Prop where
  cur : b'.cur = b.cur
  front : b'.data.take (pos + bytes.length) = b.data.take pos ++ bytes

theorem length_take_data (b : FixedBuffer SIZE) (h : pos ≤ SIZE) : (b.data.take pos).length = pos := by
  rw [List.length_take, b.size_eq]
  omega

theorem length_front (b : FixedBuffer SIZE) (h : pos ≤ SIZE) : (b.data.take pos ++ xs).length = pos + xs.length := by
  rw [List.length_append, b.length_take_data h]

theorem write_spec (b : FixedBuffer SIZE) (h : pos + xs.length ≤ SIZE) :
    ∃ b', b.write pos xs = some b' ∧ b.Wrote b' pos xs := by
  refine ⟨_, dif_pos h, rfl, ?_⟩
  have hlen : (b.data.take pos ++ xs).length = pos + xs.length := b.length_front (by omega)
  simp only [← hlen, List.take_left]

namespace Wrote

/-- One store behind the other. -/
theorem trans (h : b.Wrote b₁ pos xs) (h' : b₁.Wrote b₂ (pos + xs.length) ys) : b.Wrote b₂ pos (xs ++ ys) where
  cur := h'.cur.trans h.cur
  front := by
    rw [List.length_append, ← Nat.add_assoc, h'.front, h.front, List.append_assoc]

/-- The last bytes may be forgotten. -/
theorem shorten (h : b.Wrote b₁ pos (xs ++ ys)) (hpos : pos ≤ SIZE) : b.Wrote b₁ pos xs where
  cur := h.cur
  front := by
    have hlen : (b.data.take pos ++ xs).length = pos + xs.length := b.length_front hpos
    have htake := congrArg (List.take (pos + xs.length)) h.front
    rwa [List.take_take, Nat.min_eq_left (by simp), ← List.append_assoc, ← hlen, List.take_left, hlen] at htake

theorem reverse (h : b.Wrote b₁ pos xs) (hle : pos + xs.length ≤ SIZE) :
    ∃ b₂, b₁.reverse pos (pos + xs.length) = some b₂ ∧ b.Wrote b₂ pos xs.reverse := by
  have hpos : (b.data.take pos).length = pos := b.length_take_data (by omega)
  have hbytes : (b₁.data.take (pos + xs.length)).drop pos = xs := by
    have hdrop : (b.data.take pos ++ xs).drop (b.data.take pos).length = xs := List.drop_left
    rwa [hpos, ← h.front] at hdrop
  have hfront : b₁.data.take pos = b.data.take pos := by
    have htake : (b.data.take pos ++ xs).take (b.data.take pos).length = b.data.take pos := List.take_left
    rwa [hpos, ← h.front, List.take_take, Nat.min_eq_left (Nat.le_add_right _ _)] at htake
  have hrev : pos + xs.reverse.length ≤ SIZE := by rw [List.length_reverse]; exact hle
  obtain ⟨b₂, hb₂, hw⟩ := b₁.write_spec hrev
  refine ⟨b₂, ?_, hw.cur.trans h.cur, ?_⟩
  · simp only [FixedBuffer.reverse, check_of hle, hbytes, Option.bind_eq_bind, Option.bind_some, hb₂]
  · rw [hw.front, hfront]

end Wrote

/-! ## Digits -/

/-- The loop writes the digits of `|i|`, the last one first. `ok` is what is known of the sign. -/
theorem convertLoop_spec (base : Nat) (hbase : 1 < base) {digit : Int → Option UInt8} {f : Char → UInt8} (ok : Int → Prop)
    (hok : ∀ i, ok i → ok (i.tdiv base) ∧ digit (i.tmod base) = some (f (Nat.digitChar (i.natAbs % base))))
    {fuel : Nat} {i : Int} (hi : ok i) (hfuel : i.natAbs < fuel) (b : FixedBuffer SIZE)
    (h : pos + (Nat.toDigits base i.natAbs).length ≤ SIZE) :
    ∃ b', b.convertLoop base digit fuel pos i = some (pos + (Nat.toDigits base i.natAbs).length, b') ∧
      b.Wrote b' pos ((Nat.toDigits base i.natAbs).map f).reverse := by
  induction fuel generalizing b pos i with
  | zero => omega
  | succ fuel ih =>
    obtain ⟨hnext, hdigit⟩ := hok i hi
    have hpos : 0 < (Nat.toDigits base i.natAbs).length := Nat.length_toDigits_pos
    have hone : pos + [f (Nat.digitChar (i.natAbs % base))].length ≤ SIZE := by rw [List.length_singleton]; omega
    obtain ⟨b₁, hb₁, hw₁⟩ := b.write_spec hone
    have hdiv : (i.tdiv base).natAbs = i.natAbs / base := Int.natAbs_tdiv i base
    simp only [convertLoop, hdigit, hb₁, Option.bind_eq_bind, Option.bind_some]
    by_cases hlast : i.natAbs < base
    · have hzero : i.tdiv base = 0 := by
        rw [← Int.natAbs_eq_zero, hdiv, Nat.div_eq_of_lt hlast]
      rw [Nat.mod_eq_of_lt hlast] at hw₁
      rw [if_neg (not_not.2 hzero), Nat.toDigits_of_lt_base hlast]
      exact ⟨b₁, rfl, hw₁⟩
    · have hge : base ≤ i.natAbs := Nat.not_lt.1 hlast
      have hne : i.tdiv base ≠ 0 := by
        rw [← Int.natAbs_ne_zero, hdiv]
        exact Nat.ne_of_gt (Nat.div_pos hge (by omega))
      have hless : i.natAbs / base < i.natAbs := Nat.div_lt_self (by omega) hbase
      rw [Nat.toDigits_of_base_le hbase hge, List.length_append, List.length_singleton] at h ⊢
      rw [← hdiv] at h ⊢
      obtain ⟨b₂, hb₂, hw₂⟩ := ih hnext (by omega) b₁ (by omega : pos + 1 + _ ≤ SIZE)
      refine ⟨b₂, ?_, ?_⟩
      · rw [if_pos hne, hb₂]
        congr 2
        omega
      · simpa using hw₁.trans hw₂

theorem zero_tmod (i : Int) : zero (i.tmod 10) = some (byteOf (Nat.digitChar (i.natAbs % 10))) := by
  have htable : ∀ d < 10, zero (d : Nat) = some (byteOf (Nat.digitChar d)) ∧
      zero (-(d : Nat)) = some (byteOf (Nat.digitChar d)) := by decide
  have habs : (i.tmod 10).natAbs = i.natAbs % 10 := Int.natAbs_tmod i 10
  have hlt : i.natAbs % 10 < 10 := Nat.mod_lt _ (by decide)
  rcases Int.natAbs_eq (i.tmod 10) with heq | heq
  · rw [heq, habs]
    exact (htable _ hlt).1
  · rw [heq, habs]
    exact (htable _ hlt).2

theorem digitsHex_tmod {i : Int} (hi : 0 ≤ i) :
    digitsHex (i.tmod 16) = some (byteOf (Nat.digitChar (i.natAbs % 16)).toUpper) := by
  have htable : ∀ d < 16, digitsHex (d : Nat) = some (byteOf (Nat.digitChar d).toUpper) := by decide
  have heq : i.tmod 16 = ((i.natAbs % 16 : Nat) : Int) := by
    rw [Int.tmod_eq_emod_of_nonneg hi]
    omega
  rw [heq]
  exact htable _ (Nat.mod_lt _ (by decide))

/-- The last lines of `convert` and `convertHex`: the NUL, and the digits turned round. -/
theorem Wrote.terminate (h : b.Wrote b₁ pos xs) (hle : pos + xs.length + 1 ≤ SIZE) :
    ∃ b₂ b₃, b₁.write (pos + xs.length) [0] = some b₂ ∧ b₂.reverse pos (pos + xs.length) = some b₃ ∧
      b.Wrote b₃ pos xs.reverse := by
  obtain ⟨b₂, hb₂, hw₂⟩ := b₁.write_spec (show pos + xs.length + [(0 : UInt8)].length ≤ SIZE from hle)
  obtain ⟨b₃, hb₃, hw₃⟩ := ((h.trans hw₂).shorten (by omega)).reverse (by omega)
  exact ⟨b₂, b₃, hb₂, hb₃, hw₃⟩

/-- The sign, behind the digits. -/
theorem Wrote.sign {value : Int} (h : b.Wrote b₁ pos (Decimal.digits value).reverse)
    (hle : pos + (decimal value).length ≤ SIZE) :
    ∃ b₂, (if value < 0 then
        (b₁.write (pos + (Decimal.digits value).length) [45]).map fun b => (pos + (Decimal.digits value).length + 1, b)
      else some (pos + (Decimal.digits value).length, b₁)) = some (pos + (decimal value).length, b₂) ∧
      b.Wrote b₂ pos (decimal value).reverse := by
  have hall : (decimal value).length = (Decimal.sign value).length + (Decimal.digits value).length := List.length_append
  by_cases hneg : value < 0
  · have hsign : Decimal.sign value = [45] := if_pos hneg
    have hone : pos + (Decimal.digits value).reverse.length + [(45 : UInt8)].length ≤ SIZE := by
      rw [hsign] at hall
      simp only [List.length_reverse, List.length_singleton] at hall ⊢
      omega
    obtain ⟨b₂, hb₂, hw₂⟩ := b₁.write_spec hone
    refine ⟨b₂, ?_, ?_⟩
    · rw [List.length_reverse] at hb₂
      rw [if_pos hneg, hb₂, hall, hsign]
      simp only [Option.map_some, List.length_singleton]
      congr 2
      omega
    · rw [decimal, hsign, List.reverse_append]
      exact h.trans hw₂
  · have hsign : Decimal.sign value = [] := if_neg hneg
    refine ⟨b₁, ?_, ?_⟩
    · rw [if_neg hneg, hall, hsign, List.length_nil, Nat.zero_add]
    · rw [decimal, hsign]
      exact h

/-- `convert` needs the length of the text and one byte for the NUL. -/
theorem convert_spec (b : FixedBuffer SIZE) (value : Int) (h : pos + (decimal value).length + 1 ≤ SIZE) :
    ∃ b', b.convert pos value = some ((decimal value).length, b') ∧ b.Wrote b' pos (decimal value) := by
  have hlen : (Nat.toDigits 10 value.natAbs).length = (Decimal.digits value).length := (List.length_map _).symm
  have hall : (decimal value).length = (Decimal.sign value).length + (Decimal.digits value).length := List.length_append
  obtain ⟨b₁, hb₁, hw₁⟩ := convertLoop_spec 10 (by decide) (fun _ => True) (fun i _ => ⟨trivial, zero_tmod i⟩)
    trivial (Nat.lt_succ_self value.natAbs) b (by omega : pos + (Nat.toDigits 10 value.natAbs).length ≤ SIZE)
  have hb₁' : b.convertLoop 10 zero (value.natAbs + 1) pos value = some (pos + (Decimal.digits value).length, b₁) := by
    rw [← hlen]
    exact hb₁
  obtain ⟨b₂, hb₂, hw₂⟩ := hw₁.sign (Nat.le_of_succ_le h)
  obtain ⟨b₃, b₄, hb₃, hb₄, hw₄⟩ := hw₂.terminate (by rw [List.length_reverse]; exact h)
  rw [List.length_reverse] at hb₃ hb₄
  rw [List.reverse_reverse] at hw₄
  refine ⟨b₄, ?_, hw₄⟩
  simp only [convert, hb₁', hb₂, hb₃, hb₄, Option.bind_eq_bind, Option.bind_some, Nat.add_sub_cancel_left]
  rfl

theorem convertHex_spec (b : FixedBuffer SIZE) (n : Nat) (h : pos + (hexadecimal n).length + 1 ≤ SIZE) :
    ∃ b', b.convertHex pos n = some ((hexadecimal n).length, b') ∧ b.Wrote b' pos (hexadecimal n) := by
  have hlen : (Nat.toDigits 16 n).length = (hexadecimal n).length := (List.length_map _).symm
  have hok : ∀ i : Int, 0 ≤ i → 0 ≤ i.tdiv 16 ∧
      digitsHex (i.tmod 16) = some (byteOf (Nat.digitChar (i.natAbs % 16)).toUpper) :=
    fun i hi => ⟨Int.tdiv_nonneg hi (by decide), digitsHex_tmod hi⟩
  obtain ⟨b₁, hb₁, hw₁⟩ := convertLoop_spec 16 (by decide) (fun i => 0 ≤ i) (f := fun c => byteOf c.toUpper) hok
    (Int.natCast_nonneg n) (Nat.lt_succ_self n) b (hlen ▸ Nat.le_of_succ_le h : pos + (Nat.toDigits 16 n).length ≤ SIZE)
  rw [Int.natAbs_natCast] at hb₁ hw₁
  obtain ⟨b₂, b₃, hb₂, hb₃, hw₃⟩ := hw₁.terminate (by simp only [List.length_reverse, List.length_map]; omega)
  simp only [List.length_reverse, List.length_map, hlen] at hb₂ hb₃
  rw [List.reverse_reverse] at hw₃
  refine ⟨b₃, ?_, hw₃⟩
  have hb₁' : b.convertLoop 16 digitsHex ((n : Int).natAbs + 1) pos n = some (pos + (hexadecimal n).length, b₁) := by
    rw [← hlen]
    exact hb₁
  simp only [convertHex, hb₁', hb₂, hb₃, Option.bind_eq_bind, Option.bind_some, Nat.add_sub_cancel_left]
  rfl

/-! ## The end of the content -/

theorem toString_length (b : FixedBuffer SIZE) : b.toString.length = b.cur := b.length_take_data b.cur_le

/-- What was written at `cur_` becomes the end of the content. -/
theorem Wrote.add (h : b.Wrote b₁ b.cur xs) (hle : b.cur + xs.length ≤ SIZE) :
    ∃ b₂, b₁.add xs.length = some b₂ ∧ b₂.toString = b.toString ++ xs := by
  have hle' : b₁.cur + xs.length ≤ SIZE := by rw [h.cur]; exact hle
  refine ⟨_, dif_pos hle', ?_⟩
  simp only [toString, length, h.cur, h.front]

theorem append_spec (b : FixedBuffer SIZE) {buf : List UInt8} {len : Nat} (hlen : len < b.avail) (hbuf : len ≤ buf.length) :
    ∃ b', b.append buf len = some b' ∧ b'.toString = b.toString ++ buf.take len := by
  have htake : (buf.take len).length = len := List.length_take_of_le hbuf
  have hle : b.cur + (buf.take len).length ≤ SIZE := by
    rw [htake]
    unfold avail at hlen
    omega
  obtain ⟨b₁, hb₁, hw₁⟩ := b.write_spec hle
  obtain ⟨b₂, hb₂, hcontent⟩ := hw₁.add hle
  rw [htake] at hb₂
  refine ⟨b₂, ?_, hcontent⟩
  simp only [append, if_pos (show b.avail > len from hlen), check_of hbuf, hb₁, hb₂, Option.bind_eq_bind, Option.bind_some]

end FixedBuffer

/-! ## The items -/

open BoundedLog

section
variable {F D : Type} (pf : Printf F D)

def StringPiece.text (v : StringPiece) : List UInt8 := v.ptr.take v.length.toInt.toNat

/-- The full text of an item. -/
def Item.text : Item F D → List UInt8
  | .bool v => bytesOf (if v then "1" else "0")
  | .short v => decimal v.toInt
  | .unsignedShort v => decimal v.toNat
  | .int v => decimal v.toInt
  | .unsignedInt v => decimal v.toNat
  | .long v => decimal v.toInt
  | .unsignedLong v => decimal v.toNat
  | .longLong v => decimal v.toInt
  | .unsignedLongLong v => decimal v.toNat
  | .pointer p => 48 :: 120 :: hexadecimal p.toNat
  | .float v => pf.g12 (pf.toDouble v)
  | .double v => pf.g12 v
  | .char v => [v]
  | .charPtr str => str.elim (bytesOf "(null)") cString
  | .unsignedCharPtr str => str.elim (bytesOf "(null)") cString
  | .string v => v
  | .piece v => v.text
  | .buffer v => v.toStringPiece.text

/-- The room it asks for. -/
def Item.need : Item F D → Nat
  | .bool _ => 2
  | .char _ => 2
  | .charPtr str => (str.elim (bytesOf "(null)") cString).length + 1
  | .unsignedCharPtr str => (str.elim (bytesOf "(null)") cString).length + 1
  | .string v => v.length + 1
  | .piece v => LogStream.toSize v.length + 1
  | .buffer v => LogStream.toSize v.toStringPiece.length + 1
  | _ => kMaxNumericSize

theorem length_decimal_lt {v : Int} (h : -2 ^ 63 ≤ v) (h' : v < 2 ^ 64) : (decimal v).length < 32 := by
  have hle := length_decimal_le (k := 20) (by decide) (by omega : v.natAbs < 10 ^ 20)
  omega

theorem LogStream.toSize_of_nonneg {x : Int32} (h : 0 ≤ x.toInt) : toSize x = x.toInt.toNat := by
  have := x.toInt_lt
  unfold toSize
  omega

theorem LogStream.toSize_of_neg {x : Int32} (h : x.toInt < 0) : 2 ^ 63 ≤ toSize x := by
  have := x.le_toInt
  unfold toSize
  omega

theorem StringPiece.text_lt (v : StringPiece) : v.text.length < LogStream.toSize v.length + 1 := by
  rw [text, List.length_take]
  by_cases hneg : v.length.toInt < 0
  · omega
  · rw [LogStream.toSize_of_nonneg (Int.not_lt.1 hneg)]
    omega

theorem Item.text_lt (x : Item F D) : (x.text pf).length < x.need := by
  cases x with
  | bool v =>
    have hone : ∀ v : Bool, (bytesOf (if v then "1" else "0")).length < 2 := by decide
    exact hone v
  | short v | int v | long v | longLong v =>
    refine length_decimal_lt ?_ ?_
    · exact Int.le_trans (by decide) v.le_toInt
    · exact Int.lt_of_lt_of_le v.toInt_lt (by decide)
  | unsignedShort v | unsignedInt v | unsignedLong v | unsignedLongLong v =>
    have := v.toNat_lt
    exact length_decimal_lt (by omega) (by omega)
  | pointer p =>
    have hle := length_hexadecimal_le (k := 16) (by decide) (by have := p.toNat_lt; omega : p.toNat < 16 ^ 16)
    simp only [Item.text, Item.need, kMaxNumericSize, List.length_cons]
    omega
  | float v | double v => exact pf.g12_lt _
  | char v => exact Nat.lt_succ_self _
  | charPtr str | unsignedCharPtr str | string str => exact Nat.lt_succ_self _
  | piece v => exact v.text_lt
  | buffer v => exact v.toStringPiece.text_lt

def Item.offer (x : Item F D) : Offer UInt8 := ⟨x.text pf, x.need, x.text_lt pf⟩

/-! ## The stream as a bounded log -/

namespace LogStream

def Shows (s : LogStream) (l : Log UInt8 kSmallBuffer) : Prop := s.buffer.toString = l.content

variable {s : LogStream} {l : Log UInt8 kSmallBuffer}

theorem Shows.cur (h : s.Shows l) : s.buffer.cur = l.content.length := by
  rw [← s.buffer.toString_length, h]

/-- `append` of the first `len` bytes behind a pointer. -/
theorem bufferAppend_shows (h : s.Shows l) {buf : List UInt8} {len : Nat} {o : Offer UInt8} (hneed : o.need = len + 1)
    (htext : len < kSmallBuffer → len ≤ buf.length ∧ o.text = buf.take len) :
    ∃ s', s.bufferAppend buf len = some s' ∧ s'.Shows (l.offer o) := by
  have hcur := h.cur
  by_cases hroom : l.content.length + o.need ≤ kSmallBuffer
  · have havail : len < s.buffer.avail := by unfold FixedBuffer.avail; omega
    obtain ⟨hbuf, heq⟩ := htext (by omega)
    obtain ⟨b, hb, hcontent⟩ := s.buffer.append_spec havail hbuf
    refine ⟨⟨b⟩, by rw [bufferAppend, hb]; rfl, ?_⟩
    show b.toString = (l.offer o).content
    rw [hcontent, Log.offer_taken hroom, heq, h]
  · have havail : ¬ s.buffer.avail > len := by unfold FixedBuffer.avail; omega
    refine ⟨s, ?_, ?_⟩
    · rw [bufferAppend, FixedBuffer.append, if_neg havail]
      rfl
    · rw [Log.offer_dropped (Nat.not_le.1 hroom)]
      exact h

/-- A number is written where the content ends, if there are 32 bytes left. -/
theorem numeric_shows (h : s.Shows l) {o : Offer UInt8} (hneed : o.need = kMaxNumericSize) {act : Option LogStream}
    (hfull : ¬ s.buffer.avail ≥ kMaxNumericSize → act = some s)
    (hwrite : s.buffer.avail ≥ kMaxNumericSize → ∃ b, s.buffer.Wrote b s.buffer.cur o.text ∧
      act = (b.add o.text.length).bind fun b => some ⟨b⟩) :
    ∃ s', act = some s' ∧ s'.Shows (l.offer o) := by
  have hcur := h.cur
  have hlt := o.text_lt
  by_cases hroom : l.content.length + o.need ≤ kSmallBuffer
  · obtain ⟨b, hw, rfl⟩ := hwrite (by unfold FixedBuffer.avail; omega)
    obtain ⟨b', hb', hcontent⟩ := hw.add (by omega)
    refine ⟨⟨b'⟩, by rw [hb']; rfl, ?_⟩
    show b'.toString = (l.offer o).content
    rw [hcontent, Log.offer_taken hroom, h]
  · refine ⟨s, hfull (by unfold FixedBuffer.avail; omega), ?_⟩
    rw [Log.offer_dropped (Nat.not_le.1 hroom)]
    exact h

theorem formatInteger_shows (h : s.Shows l) {v : Int} (hlt : (decimal v).length < kMaxNumericSize) :
    ∃ s', s.formatInteger v = some s' ∧ s'.Shows (l.offer ⟨decimal v, kMaxNumericSize, hlt⟩) := by
  refine numeric_shows h rfl (fun hfull => if_neg hfull) fun havail => ?_
  have hroom : s.buffer.cur + (decimal v).length + 1 ≤ kSmallBuffer := by unfold FixedBuffer.avail at havail; omega
  obtain ⟨b, hb, hw⟩ := s.buffer.convert_spec v hroom
  refine ⟨b, hw, ?_⟩
  simp only [formatInteger, if_pos havail, hb, Option.bind_eq_bind, Option.bind_some]
  rfl

theorem formatPointer_shows (h : s.Shows l) {n : Nat} (hlt : (48 :: 120 :: hexadecimal n).length < kMaxNumericSize) :
    ∃ s', s.formatPointer n = some s' ∧ s'.Shows (l.offer ⟨48 :: 120 :: hexadecimal n, kMaxNumericSize, hlt⟩) := by
  refine numeric_shows h rfl (fun hfull => if_neg hfull) fun havail => ?_
  have hroom : s.buffer.cur + 2 + (hexadecimal n).length + 1 ≤ kSmallBuffer := by
    simp only [List.length_cons] at hlt
    unfold FixedBuffer.avail at havail
    omega
  obtain ⟨b₁, hb₁, hw₁⟩ := s.buffer.write_spec (by simp; omega : s.buffer.cur + [(48 : UInt8)].length ≤ kSmallBuffer)
  obtain ⟨b₂, hb₂, hw₂⟩ := b₁.write_spec (by simp; omega : s.buffer.cur + 1 + [(120 : UInt8)].length ≤ kSmallBuffer)
  obtain ⟨b₃, hb₃, hw₃⟩ := b₂.convertHex_spec n hroom
  refine ⟨b₃, (hw₁.trans hw₂).trans hw₃, ?_⟩
  simp only [formatPointer, if_pos havail, hb₁, hb₂, hb₃, Option.bind_eq_bind, Option.bind_some]
  rfl

theorem formatDouble_shows (h : s.Shows l) {text : List UInt8} (hlt : text.length < kMaxNumericSize) :
    ∃ s', s.formatDouble text = some s' ∧ s'.Shows (l.offer ⟨text, kMaxNumericSize, hlt⟩) := by
  refine numeric_shows h rfl (fun hfull => if_neg hfull) fun havail => ?_
  have htake : text.take (kMaxNumericSize - 1) = text := List.take_of_length_le (by omega)
  have hroom : s.buffer.cur + (text ++ [0]).length ≤ kSmallBuffer := by
    rw [List.length_append, List.length_singleton]
    unfold FixedBuffer.avail at havail
    omega
  obtain ⟨b, hb, hw⟩ := s.buffer.write_spec hroom
  refine ⟨b, hw.shorten s.buffer.cur_le, ?_⟩
  simp only [formatDouble, if_pos havail, FixedBuffer.snprintf, htake, hb, pure, Option.bind_eq_bind, Option.bind_some]

theorem insertPtr_shows (h : s.Shows l) (str : Option (List UInt8)) {o : Offer UInt8}
    (htext : o.text = str.elim (bytesOf "(null)") cString) (hneed : o.need = o.text.length + 1) :
    ∃ s', s.insertPtr str = some s' ∧ s'.Shows (l.offer o) := by
  cases str with
  | none => exact bufferAppend_shows h (by rw [hneed, htext]; decide) fun _ => ⟨by decide, htext⟩
  | some str =>
    have hle := length_cString_le str
    refine bufferAppend_shows h (by rw [hneed, htext]; rfl) fun _ => ⟨hle, htext.trans ?_⟩
    exact cString_eq_take str

theorem insertPiece_shows (h : s.Shows l) (v : StringPiece) :
    ∃ s', s.insertPiece v = some s' ∧ s'.Shows (l.offer ⟨v.text, toSize v.length + 1, v.text_lt⟩) := by
  refine bufferAppend_shows h rfl fun hlt => ?_
  have hle := v.length_le
  by_cases hneg : v.length.toInt < 0
  · exact absurd hlt (Nat.not_lt.2 (Nat.le_trans (by decide) (toSize_of_neg hneg)))
  · have hsize := toSize_of_nonneg (Int.not_lt.1 hneg)
    exact ⟨by omega, congrArg (v.ptr.take ·) hsize.symm⟩

/-- **An insertion** takes the item whole or drops it, and writes nothing outside of the buffer. -/
theorem shl_shows (h : s.Shows l) (x : Item F D) : ∃ s', s.shl pf x = some s' ∧ s'.Shows (l.offer (x.offer pf)) := by
  cases x with
  | bool v =>
    have hone : ∀ v : Bool, 1 ≤ (bytesOf (if v then "1" else "0")).length ∧
      bytesOf (if v then "1" else "0") = (bytesOf (if v then "1" else "0")).take 1 := by decide
    exact bufferAppend_shows h rfl fun _ => hone v
  | short v | int v | long v | longLong v => exact formatInteger_shows h _
  | unsignedShort v | unsignedInt v | unsignedLong v | unsignedLongLong v => exact formatInteger_shows h _
  | pointer p => exact formatPointer_shows h _
  | float v | double v => exact formatDouble_shows h _
  | char v => exact bufferAppend_shows h rfl fun _ => ⟨Nat.le_refl 1, rfl⟩
  | charPtr str | unsignedCharPtr str => exact insertPtr_shows h str rfl rfl
  | string v => exact bufferAppend_shows h rfl fun _ => ⟨Nat.le_refl _, (List.take_length).symm⟩
  | piece v => exact insertPiece_shows h v
  | buffer v => exact insertPiece_shows h v.toStringPiece

theorem insertAll_shows (h : s.Shows l) (items : List (Item F D)) :
    ∃ s', s.insertAll pf items = some s' ∧ s'.Shows (l.offers (items.map (Item.offer pf))) := by
  induction items generalizing s l with
  | nil => exact ⟨s, rfl, h⟩
  | cons x items ih =>
    obtain ⟨s₁, hs₁, h₁⟩ := shl_shows pf h x
    obtain ⟨s₂, hs₂, h₂⟩ := ih h₁
    refine ⟨s₂, ?_, h₂⟩
    rw [insertAll, List.foldlM_cons, hs₁]
    exact hs₂

/-- The empty log. -/
def emptyLog : Log UInt8 kSmallBuffer := ⟨[], by decide⟩

theorem new_shows (data : Fin kSmallBuffer → UInt8) : (new data).Shows emptyLog := rfl

end LogStream

/-- **Items are not split**: whatever is inserted, every store is inside of the buffer, at most 3999 bytes are in it, and
they are the full texts of some of the items, in order. -/
theorem items_not_split (data : Fin kSmallBuffer → UInt8) (items : List (Item F D)) :
    ∃ s, (LogStream.new data).insertAll pf items = some s ∧ s.buffer.length ≤ 3999 ∧
      ∃ kept : List (Item F D), kept.Sublist items ∧ s.buffer.toString = kept.flatMap (Item.text pf) := by
  obtain ⟨s, hs, hshows⟩ := LogStream.insertAll_shows pf (LogStream.new_shows data) items
  refine ⟨s, hs, ?_, ?_⟩
  · have hlt := (LogStream.emptyLog.offers (items.map (Item.offer pf))).room
    rw [← hshows.cur] at hlt
    exact Nat.le_of_lt_succ hlt
  · obtain ⟨kept, hsub, hkept⟩ := LogStream.emptyLog.offers_kept (items.map (Item.offer pf))
    obtain ⟨kept, hitems, rfl⟩ := List.sublist_map_iff.1 hsub
    refine ⟨kept, hitems, ?_⟩
    rw [hshows, hkept, List.flatMap_map]
    rfl

end
end ChatReactor
