import ChatReactor.BufferProofs

/-!
# `Buffer::shrink` (`Buffer.h:193-198`)

`shrink` moves the readable bytes to `kCheapPrepend` of a new vector and does not touch `readerIndex_` and
`writerIndex_`. They fit the new vector if the bytes were there before. Otherwise the readable bytes are other ones
afterwards: too few of them if `readerIndex_` is greater, some of the zeros in front if it is less, which makes no
difference only if all of them are zeros.
-/

namespace ChatReactor
namespace Buffer

variable {b : Buffer} {pre q spare : List UInt8}

/-- A list that is itself behind zeros consists of zeros. -/
theorem all_zero_of_shift {l s : List UInt8} {k : Nat} (hk : 0 < k)
    (h : (List.replicate k 0 ++ l ++ s).take l.length = l) : ∀ i, ∀ hi : i < l.length, l[i] = 0 := by
  intro i
  induction i using Nat.strong_induction_on with
  | _ i ih =>
    intro hi
    have hget : l[i]? = (List.replicate k 0 ++ (l ++ s))[i]? := by
      rw [← List.append_assoc]
      conv_lhs => rw [← h, List.getElem?_take, if_pos hi]
    rw [List.getElem?_eq_getElem hi] at hget
    by_cases hik : i < k
    · rw [List.getElem?_append_left (by simpa using hik), List.getElem?_replicate, if_pos hik] at hget
      exact Option.some.inj hget
    · rw [List.getElem?_append_right (by simp; omega), List.length_replicate,
        List.getElem?_append_left (by omega), List.getElem?_eq_getElem (by omega), ih (i - k) (by omega) (by omega)] at hget
      exact Option.some.inj hget

/-- What `shrink` leaves, if the new vector can be made. -/
theorem shrink_eq (h : Layout b pre q spare) {reserve : UInt64}
    (hfit : kCheapPrepend + b.readableBytes + reserve.toNat ≤ kMaxSize) : b.shrink reserve = some
      { b with buffer := List.replicate kCheapPrepend 0 ++ q ++ List.replicate reserve.toNat 0 } := by
  have hsize : (kCheapPrepend + b.readableBytes + reserve.toNat) % 18446744073709551616 =
      kCheapPrepend + q.length + reserve.toNat := by
    rw [← h.readableBytes_eq]
    exact Nat.mod_eq_of_lt (by simp only [kMaxSize] at hfit; omega)
  have hstore : store (List.replicate (kCheapPrepend + q.length + reserve.toNat) 0) kCheapPrepend q =
      some (List.replicate kCheapPrepend 0 ++ q ++ List.replicate reserve.toNat 0) := by
    have hcopy := store_append (List.replicate kCheapPrepend 0) (List.replicate q.length 0)
      (List.replicate reserve.toNat 0) q (by simp)
    rwa [List.length_replicate, ← List.replicate_add, ← List.replicate_add] at hcopy
  rw [h.readableBytes_eq] at hfit
  simp only [shrink, hsize, check_of hfit, h.content_eq, hstore, Option.bind_eq_bind, Option.bind_some, Option.pure_def]

/-- A sum that is too great for a vector, or for a `size_t`: then it has become too small for the copy. -/
theorem shrink_none (h : Layout b pre q spare) {reserve : UInt64}
    (hfit : kMaxSize < kCheapPrepend + b.readableBytes + reserve.toNat) : b.shrink reserve = none := by
  have hreserve := reserve.toNat_lt
  rw [h.readableBytes_eq] at hfit
  simp only [shrink, h.readableBytes_eq, h.content_eq]
  generalize hsize : (kCheapPrepend + q.length + reserve.toNat) % 18446744073709551616 = size
  by_cases hmax : size ≤ kMaxSize
  · have hcopy : ¬ kCheapPrepend + q.length ≤ size := by
      simp only [kMaxSize] at hfit hmax
      omega
    simp [check_of hmax, store, hcopy]
  · simp [check, hmax]

/-- What `shrink` is for: nothing is lost, the indices are in order and there is room for `reserve` bytes. -/
structure Shrunk (b b' : Buffer) (reserve : UInt64) : Prop where
  content_eq : b'.content = b.content
  reader_le_writer : b'.readerIndex ≤ b'.writerIndex
  writer_le_size : b'.writerIndex ≤ b'.buffer.length
  reserve_le : reserve.toNat ≤ b'.writableBytes

/-- The readable bytes afterwards, if they began before `kCheapPrepend` or there. -/
theorem content_shrunk (h : Layout b pre q spare) (hle : b.readerIndex ≤ kCheapPrepend) (n : Nat) :
    content { b with buffer := List.replicate kCheapPrepend 0 ++ q ++ List.replicate n 0 } =
      (List.replicate (kCheapPrepend - b.readerIndex) 0 ++ q ++ List.replicate n 0).take q.length := by
  have hreadable := h.readableBytes_eq
  simp only [readableBytes] at hreadable
  simp only [content, readableBytes, hreadable, List.append_assoc]
  rw [List.drop_append_of_le_length (by simpa using hle), List.drop_replicate]

theorem shrunk_iff (h : Layout b pre q spare) (reserve : UInt64) :
    Shrunk b { b with buffer := List.replicate kCheapPrepend 0 ++ q ++ List.replicate reserve.toNat 0 } reserve ↔
      b.readerIndex = kCheapPrepend ∨ b.readerIndex < kCheapPrepend ∧ ∀ x ∈ q, x = 0 := by
  have hwriter : b.writerIndex = b.readerIndex + q.length := by rw [h.writer_eq, h.reader_eq]
  have hsize : (List.replicate kCheapPrepend 0 ++ q ++ List.replicate reserve.toNat (0 : UInt8)).length =
      kCheapPrepend + q.length + reserve.toNat := by simp; omega
  constructor
  · rintro ⟨hcontent, -, hwrite, hreserve⟩
    simp only [writableBytes, hsize] at hwrite hreserve
    have hle : b.readerIndex ≤ kCheapPrepend := by omega
    rw [content_shrunk h hle, h.content_eq] at hcontent
    obtain heq | hlt := Nat.eq_or_lt_of_le hle
    · exact .inl heq
    · refine .inr ⟨hlt, fun x hx => ?_⟩
      obtain ⟨i, hi, rfl⟩ := List.getElem_of_mem hx
      exact all_zero_of_shift (by omega) hcontent i hi
  · intro hcase
    have hle : b.readerIndex ≤ kCheapPrepend := by omega
    refine ⟨?_, h.wf.reader_le_writer, ?_, ?_⟩
    · rw [content_shrunk h hle, h.content_eq]
      obtain heq | ⟨-, hzero⟩ := hcase
      · simp [heq]
      · have hq : q = List.replicate q.length 0 := List.eq_replicate_iff.2 ⟨rfl, hzero⟩
        rw [hq, List.length_replicate, ← List.replicate_add, ← List.replicate_add, List.take_replicate,
          Nat.min_eq_left (by omega)]
    · simp only [hsize]
      omega
    · simp only [writableBytes, hsize]
      omega

/-- **`shrink` preserves the buffer exactly if** the vector can be made and the readable bytes begin at `kCheapPrepend`,
or before it and are all zero. -/
theorem shrink_preserves_iff (hreach : Reach b q) (reserve : UInt64) :
    (∃ b', b.shrink reserve = some b' ∧ Shrunk b b' reserve) ↔
      kCheapPrepend + b.readableBytes + reserve.toNat ≤ kMaxSize ∧
        (b.readerIndex = kCheapPrepend ∨ b.readerIndex < kCheapPrepend ∧ ∀ x ∈ b.content, x = 0) := by
  obtain ⟨pre, spare, h⟩ := hreach.layout
  rw [h.content_eq, ← shrunk_iff h reserve]
  by_cases hfit : kCheapPrepend + b.readableBytes + reserve.toNat ≤ kMaxSize
  · simp [shrink_eq h hfit, hfit]
  · simp [shrink_none h (Nat.lt_of_not_le hfit), hfit]

/-- A new buffer with `q` appended. -/
def appended (q : List UInt8) : Buffer :=
  ⟨List.replicate kCheapPrepend 0 ++ q ++ List.replicate (kInitialSize - q.length) 0, kCheapPrepend,
    kCheapPrepend + q.length⟩

/-- Three bytes appended. -/
theorem shrink_preserves_iff_appended : Reach (appended [1, 2, 3]) [1, 2, 3] ∧
    ∃ b', (appended [1, 2, 3]).shrink 16 = some b' ∧ Shrunk (appended [1, 2, 3]) b' 16 := by
  have happend : new.step (.append [1, 2, 3]) = some ([], appended [1, 2, 3]) := by decide +kernel
  have hreach : Reach (appended [1, 2, 3]) [1, 2, 3] := Reach.call (.append [1, 2, 3]) Reach.new trivial happend
  exact ⟨hreach, (shrink_preserves_iff hreach 16).2 ⟨by decide +kernel, .inl rfl⟩⟩

/-- Five bytes appended and two taken out. After `shrink(16)` the three readable bytes are other ones and there is room
for 14; after `shrink(0)` they reach over the end of the vector. -/
theorem shrink_loses_bytes : ∃ b, Reach b [3, 4, 5] ∧
    (∃ b', b.shrink 16 = some b' ∧ b'.content = [5, 0, 0] ∧ b'.writableBytes = 14) ∧
    ∃ b', b.shrink 0 = some b' ∧ b'.buffer.length < b'.writerIndex := by
  have happend : new.step (.append [1, 2, 3, 4, 5]) = some ([], appended [1, 2, 3, 4, 5]) := by decide +kernel
  have hlegal : 2 ≤ (appended [1, 2, 3, 4, 5]).readableBytes := by decide +kernel
  have hretrieve : (appended [1, 2, 3, 4, 5]).step (.retrieve 2) =
      some ([], { appended [1, 2, 3, 4, 5] with readerIndex := 10 }) := by decide +kernel
  have hreach : Reach { appended [1, 2, 3, 4, 5] with readerIndex := 10 } [3, 4, 5] :=
    Reach.call (.retrieve 2) (Reach.call (.append [1, 2, 3, 4, 5]) Reach.new trivial happend) hlegal hretrieve
  exact ⟨_, hreach, ⟨⟨List.replicate 8 0 ++ [3, 4, 5] ++ List.replicate 16 0, 10, 13⟩, by decide +kernel,
    by decide +kernel, by decide +kernel⟩, ⟨List.replicate 8 0 ++ [3, 4, 5], 10, 13⟩, by decide +kernel, by decide +kernel⟩

end Buffer
end ChatReactor
