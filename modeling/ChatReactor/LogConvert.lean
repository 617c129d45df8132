import ChatReactor.LogStreamProofs

/-!
# The texts of `convert` and `convertHex` (`LogStream.cc:20-67`)

`LogStreamProofs` says what `convert` writes in front of its NUL; here is the rest of the buffer. The stores of the loop and
of `std::reverse` are all in front of the pointer, so that behind it stands the NUL and then what was there before
(`convert_behind`). A buffer with room for the text and its NUL is enough, and nothing else in it changes (`convert_exact`).
-/

namespace ChatReactor

open Decimal

namespace FixedBuffer
variable {SIZE : Nat} {b b₁ b₂ b₃ b' : FixedBuffer SIZE} {pos first last p len : Nat} {xs : List UInt8}

/-! ## What the stores leave behind them -/

theorem drop_eq_of_le {α : Type} {l l' : List α} (h : l.drop first = l'.drop first) (hle : first ≤ last) :
    l.drop last = l'.drop last := by
  obtain ⟨k, rfl⟩ := Nat.exists_eq_add_of_le hle
  rw [← List.drop_drop, h, List.drop_drop]

theorem write_behind (h : b.write pos xs = some b') : b'.data.drop pos = xs ++ b.data.drop (pos + xs.length) := by
  obtain ⟨hle, hb'⟩ := Option.dite_none_right_eq_some.1 h
  cases hb'
  have hpos := b.length_take_data (show pos ≤ SIZE by omega)
  change (b.data.take pos ++ xs ++ b.data.drop (pos + xs.length)).drop pos = _
  rw [List.append_assoc, List.drop_append, List.drop_eq_nil_of_le (Nat.le_of_eq hpos), hpos, Nat.sub_self, List.drop_zero,
    List.nil_append]

theorem write_untouched (h : b.write pos xs = some b') (hle : pos + xs.length ≤ last) :
    b'.data.drop last = b.data.drop last := by
  refine drop_eq_of_le ?_ hle
  rw [← List.drop_drop, write_behind h, List.drop_left]

theorem reverse_untouched (h : b.reverse first last = some b') (hle : first ≤ last) :
    b'.data.drop last = b.data.drop last := by
  simp only [reverse, Option.bind_eq_bind, Option.bind_eq_some_iff, check_eq_some] at h
  obtain ⟨_, hlast, hwrite⟩ := h
  have hlen := b.length_take_data hlast
  refine write_untouched hwrite ?_
  rw [List.length_reverse, List.length_drop, hlen]
  omega

/-- The loop stores in front of the pointer that it returns. -/
theorem convertLoop_untouched {base : Int} {digit : Int → Option UInt8} {fuel : Nat} {i : Int}
    (h : b.convertLoop base digit fuel pos i = some (p, b')) : pos ≤ p ∧ b'.data.drop p = b.data.drop p := by
  induction fuel generalizing b pos i with
  | zero => cases h
  | succ fuel ih =>
    simp only [convertLoop, Option.bind_eq_bind, Option.bind_eq_some_iff] at h
    obtain ⟨c, -, b₁, hb₁, hrest⟩ := h
    split at hrest
    · obtain ⟨hle, hdrop⟩ := ih hrest
      exact ⟨by omega, hdrop.trans (write_untouched hb₁ hle)⟩
    · cases hrest
      exact ⟨Nat.le_succ pos, write_untouched hb₁ (Nat.le_refl _)⟩

/-- The last lines of `convert` and `convertHex`. -/
theorem terminate_behind (hdrop : b₁.data.drop p = b.data.drop p) (hb₂ : b₁.write p [0] = some b₂)
    (hb₃ : b₂.reverse pos p = some b₃) (hle : pos ≤ p) : b₃.data.drop p = 0 :: b.data.drop (p + 1) := by
  have hnext : b₁.data.drop (p + 1) = b.data.drop (p + 1) := drop_eq_of_le hdrop (Nat.le_succ p)
  rw [reverse_untouched hb₃ hle, write_behind hb₂, List.length_singleton, hnext, List.singleton_append]

theorem convert_behind {value : Int} (h : b.convert pos value = some (len, b')) :
    b'.data.drop (pos + len) = 0 :: b.data.drop (pos + len + 1) := by
  simp only [convert, Option.bind_eq_bind, Option.bind_eq_some_iff] at h
  obtain ⟨⟨p, b₁⟩, hloop, ⟨p', b₂⟩, hsign, b₃, hnul, b₄, hreverse, hpure⟩ := h
  cases hpure
  obtain ⟨hle, hdrop⟩ := convertLoop_untouched hloop
  obtain ⟨hle', hdrop'⟩ : p ≤ p' ∧ b₂.data.drop p' = b.data.drop p' := by
    split at hsign
    · obtain ⟨b₂, hminus, hpair⟩ := Option.map_eq_some_iff.1 hsign
      cases hpair
      have hnext : b₁.data.drop (p + 1) = b.data.drop (p + 1) := drop_eq_of_le hdrop (Nat.le_succ p)
      exact ⟨Nat.le_succ p, (write_untouched hminus (Nat.le_refl _)).trans hnext⟩
    · cases hsign
      exact ⟨Nat.le_refl p, hdrop⟩
  rw [Nat.add_sub_cancel' (hle.trans hle')]
  exact terminate_behind hdrop' hnul hreverse (hle.trans hle')

theorem convertHex_behind {value : Int} (h : b.convertHex pos value = some (len, b')) :
    b'.data.drop (pos + len) = 0 :: b.data.drop (pos + len + 1) := by
  simp only [convertHex, Option.bind_eq_bind, Option.bind_eq_some_iff] at h
  obtain ⟨⟨p, b₁⟩, hloop, b₂, hnul, b₃, hreverse, hpure⟩ := h
  cases hpure
  obtain ⟨hle, hdrop⟩ := convertLoop_untouched hloop
  rw [Nat.add_sub_cancel' hle]
  exact terminate_behind hdrop hnul hreverse hle

/-! ## The buffer as a whole -/

/-- A text and its NUL have been written at `pos`, and nothing else has changed. -/
structure Printed (b b' : FixedBuffer SIZE) (pos : Nat) (text : List UInt8) : Prop where
  cur : b'.cur = b.cur
  data : b'.data = b.data.take pos ++ text ++ 0 :: b.data.drop (pos + text.length + 1)

theorem Wrote.printed (h : b.Wrote b' pos xs) (hbehind : b'.data.drop (pos + xs.length) = 0 :: b.data.drop (pos + xs.length + 1)) :
    b.Printed b' pos xs where
  cur := h.cur
  data := by rw [← h.front, ← hbehind, List.take_append_drop]

end FixedBuffer

/-- A 64-bit integer has at most 20 characters: the most negative one has 19 digits and its sign, the greatest one without
a sign has 20 digits. -/
theorem length_decimal_le_twenty {v : Int} (hmin : -2 ^ 63 ≤ v) (hmax : v < 2 ^ 64) : (decimal v).length ≤ 20 := by
  by_cases hneg : v < 0
  · exact length_decimal_le (by decide) (by omega : v.natAbs < 10 ^ 19)
  · have hdigits := length_digits_le (by decide) (by omega : v.natAbs < 10 ^ 20)
    have hsign : Decimal.sign v = [] := if_neg hneg
    rwa [decimal, hsign, List.nil_append]

/-- **Integer formatting is exact.** For every value of a type from `int` to 64 bits, signed or not, `convert` writes its
decimal representation and a NUL, at most 21 characters, and returns the length; so does `convertHex` in base 16. -/
theorem convert_exact :
    (∀ v : Int, -2 ^ 63 ≤ v → v < 2 ^ 64 → ∃ text, Canonical v text ∧ text.length + 1 ≤ 21 ∧
      ∀ (SIZE : Nat) (b : FixedBuffer SIZE) (pos : Nat), pos + text.length + 1 ≤ SIZE →
        ∃ b', b.convert pos v = some (text.length, b') ∧ b.Printed b' pos text) ∧
    ∀ v : UInt64, ∃ text, Numeral 16 text ∧ readNat 16 text = some v.toNat ∧ text.length + 1 ≤ 17 ∧
      ∀ (SIZE : Nat) (b : FixedBuffer SIZE) (pos : Nat), pos + text.length + 1 ≤ SIZE →
        ∃ b', b.convertHex pos v.toNat = some (text.length, b') ∧ b.Printed b' pos text := by
  constructor
  · intro v hmin hmax
    refine ⟨decimal v, canonical_decimal v, Nat.succ_le_succ (length_decimal_le_twenty hmin hmax), ?_⟩
    intro SIZE b pos hroom
    obtain ⟨b', hb', hwrote⟩ := b.convert_spec v hroom
    exact ⟨b', hb', hwrote.printed (FixedBuffer.convert_behind hb')⟩
  · intro v
    have hlt : v.toNat < 16 ^ 16 := v.toNat_lt
    refine ⟨hexadecimal v.toNat, numeral_hexadecimal _, readNat_hexadecimal _,
      Nat.succ_le_succ (length_hexadecimal_le (by decide) hlt), ?_⟩
    intro SIZE b pos hroom
    obtain ⟨b', hb', hwrote⟩ := b.convertHex_spec v.toNat hroom
    exact ⟨b', hb', hwrote.printed (FixedBuffer.convertHex_behind hb')⟩

/-- The most negative value, in 21 bytes. -/
theorem convert_exact_min : ∃ (b : FixedBuffer 21) (text : List UInt8) (b' : FixedBuffer 21),
    Canonical (-9223372036854775808) text ∧ b.convert 0 (-9223372036854775808) = some (text.length, b') ∧
      b.Printed b' 0 text := by
  obtain ⟨text, htext, hlen, hconvert⟩ := convert_exact.1 (-9223372036854775808) (by decide) (by decide)
  obtain ⟨b', hb', hprinted⟩ := hconvert 21 ⟨List.replicate 21 0, 0, rfl, by decide⟩ 0 (by omega)
  exact ⟨_, text, b', htext, hb', hprinted⟩

end ChatReactor
