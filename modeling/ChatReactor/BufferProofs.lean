import ChatReactor.Buffer

/-!
# `Buffer` refines a byte queue

A sound buffer is cut in three by its two indices: `Layout b pre q spare` says that `buffer_` is the
prependable bytes `pre`, the readable bytes `q` and the writable bytes `spare`. Each member is
specified once on this picture; the queue operations and the class invariant follow from it.
-/

namespace ChatReactor
namespace Buffer

/-- `0 <= readerIndex <= writerIndex <= size` (the class comment, `Buffer.h:31`), and the room for
`retrieveAll` to put both indices at `kCheapPrepend`. -/
structure WF (b : Buffer) : Prop where
  reader_le_writer : b.readerIndex ≤ b.writerIndex
  writer_le_size : b.writerIndex ≤ b.buffer.length
  cheap_le_size : kCheapPrepend ≤ b.buffer.length

/-- `buffer_` is `pre ++ q ++ spare`, cut at the two indices. -/
structure Layout (b : Buffer) (pre q spare : List UInt8) : Prop where
  buffer_eq : b.buffer = pre ++ q ++ spare
  reader_eq : b.readerIndex = pre.length
  writer_eq : b.writerIndex = pre.length + q.length
  cheap_le : kCheapPrepend ≤ b.buffer.length

section Layout
variable {b : Buffer} {pre q spare : List UInt8}

theorem Layout.wf (h : Layout b pre q spare) : b.WF where
  reader_le_writer := by rw [h.reader_eq, h.writer_eq]; omega
  writer_le_size := by rw [h.writer_eq, h.buffer_eq]; simp
  cheap_le_size := h.cheap_le

theorem Layout.readableBytes_eq (h : Layout b pre q spare) : b.readableBytes = q.length := by
  rw [readableBytes, h.reader_eq, h.writer_eq]; omega

theorem Layout.writableBytes_eq (h : Layout b pre q spare) : b.writableBytes = spare.length := by
  rw [writableBytes, h.writer_eq, h.buffer_eq]; simp; omega

theorem Layout.drop_peek (h : Layout b pre q spare) : b.buffer.drop b.peek = q ++ spare := by
  rw [peek, h.buffer_eq, h.reader_eq, List.append_assoc, List.drop_left]

theorem Layout.content_eq (h : Layout b pre q spare) : b.content = q := by
  rw [content, h.readableBytes_eq, ← peek, h.drop_peek, List.take_left]

theorem WF.layout (h : b.WF) :
    Layout b (b.buffer.take b.readerIndex) b.content (b.buffer.drop b.writerIndex) where
  buffer_eq := by
    have h1 := h.reader_le_writer
    have hw : b.writerIndex = b.readerIndex + b.readableBytes := by rw [readableBytes]; omega
    rw [content, hw, ← List.drop_drop, List.append_assoc, List.take_append_drop, List.take_append_drop]
  reader_eq := by
    have h1 := h.reader_le_writer; have h2 := h.writer_le_size
    simp; omega
  writer_eq := by
    have h1 := h.reader_le_writer; have h2 := h.writer_le_size
    simp [content, readableBytes]; omega
  cheap_le := h.cheap_le_size

theorem content_length (h : b.WF) : b.content.length = b.readableBytes :=
  h.layout.readableBytes_eq.symm

theorem new_layout : Layout new (List.replicate kCheapPrepend 0) [] (List.replicate kInitialSize 0) where
  buffer_eq := by rw [new, List.append_nil, List.replicate_add]
  reader_eq := by simp [new]
  writer_eq := by simp [new]
  cheap_le := by simp [new]

/-! ## The members -/

theorem construct_eq : construct = some new := by
  have h := new_layout
  have hr : new.readableBytes = 0 := by rw [h.readableBytes_eq]; rfl
  have hw : new.writableBytes = kInitialSize := by rw [h.writableBytes_eq, List.length_replicate]
  have hp : new.prependableBytes = kCheapPrepend := rfl
  simp [construct, check_of hr, check_of hw, check_of hp]

theorem retrieve_layout (h : Layout b pre q spare) (len : Nat) (hlen : len ≤ q.length) :
    ∃ b', b.retrieve len = some b' ∧ Layout b' (pre ++ q.take len) (q.drop len) spare := by
  refine ⟨{ b with readerIndex := b.readerIndex + len }, ?_, ?_, ?_, ?_, h.cheap_le⟩
  · simp [retrieve, check_of (h.readableBytes_eq ▸ hlen)]
  · rw [List.append_assoc pre, List.take_append_drop, h.buffer_eq]
  · simp [h.reader_eq, hlen]
  · simp [h.writer_eq]; omega

theorem retrieveAll_layout (h : Layout b pre q spare) :
    Layout b.retrieveAll (b.buffer.take kCheapPrepend) [] (b.buffer.drop kCheapPrepend) where
  buffer_eq := by simp [retrieveAll]
  reader_eq := by simp [retrieveAll, h.cheap_le]
  writer_eq := by simp [retrieveAll, h.cheap_le]
  cheap_le := h.cheap_le

theorem fill_layout (h : Layout b pre q spare) (data : List UInt8) (hd : data.length ≤ spare.length) :
    ∃ b', b.fill data = some b' ∧ Layout b' pre q (data ++ spare.drop data.length) := by
  have hs : store b.buffer b.beginWrite data = some (pre ++ q ++ data ++ spare.drop data.length) := by
    have hcut : b.buffer = pre ++ q ++ spare.take data.length ++ spare.drop data.length := by
      rw [h.buffer_eq, List.append_assoc _ (List.take _ _), List.take_append_drop]
    rw [beginWrite, h.writer_eq, ← List.length_append, hcut]
    exact store_append _ _ _ _ (by simp [hd])
  refine ⟨{ b with buffer := pre ++ q ++ data ++ spare.drop data.length }, by simp [fill, hs],
    ⟨by simp, h.reader_eq, h.writer_eq, ?_⟩⟩
  have := h.cheap_le
  rw [h.buffer_eq] at this
  simp at this ⊢; omega

theorem hasWritten_layout {data rest : List UInt8} (h : Layout b pre q (data ++ rest)) :
    Layout (b.hasWritten data.length) pre (q ++ data) rest where
  buffer_eq := by simp [hasWritten, h.buffer_eq]
  reader_eq := h.reader_eq
  writer_eq := by simp [hasWritten, h.writer_eq]; omega
  cheap_le := h.cheap_le

/-- `makeSpace`, entered as `ensureWritableBytes` enters it: its asserts hold, the content is the
same and the writable space suffices. Sliding is chosen only if more than `kCheapPrepend` bytes are
prependable, which is the assert of that branch. -/
theorem makeSpace_layout (h : Layout b pre q spare) {len : Nat} (hlt : spare.length < len) :
    ∃ b' pre' spare', b.makeSpace len = some b' ∧ Layout b' pre' q spare' ∧ len ≤ spare'.length ∧
      min pre.length kCheapPrepend ≤ pre'.length := by
  have hw := h.writableBytes_eq
  by_cases hgrow : b.writableBytes + b.prependableBytes < len + kCheapPrepend
  · have hsz : b.buffer.length = b.writerIndex + spare.length := by
      rw [h.buffer_eq, h.writer_eq]; simp; omega
    have hresize : resize b.buffer (b.writerIndex + len) =
        pre ++ q ++ (spare ++ List.replicate (len - spare.length) 0) := by
      rw [resize, List.take_of_length_le (by omega), show b.writerIndex + len - b.buffer.length = len - spare.length by omega,
        h.buffer_eq, List.append_assoc (pre ++ q)]
    refine ⟨{ b with buffer := resize b.buffer (b.writerIndex + len) }, pre,
      spare ++ List.replicate (len - spare.length) 0, by simp [makeSpace, hgrow],
      ⟨hresize, h.reader_eq, h.writer_eq, ?_⟩, by simp; omega, by omega⟩
    have := h.cheap_le
    rw [hsz, h.writer_eq] at this
    simp [hresize]; omega
  · have hp : b.prependableBytes = pre.length := h.reader_eq
    have hcheap : kCheapPrepend < b.readerIndex := by
      have := h.reader_eq; omega
    have hpre : kCheapPrepend ≤ pre.length := by have := h.reader_eq; omega
    have hq : b.writerIndex - b.readerIndex = q.length := h.readableBytes_eq
    have hsz : b.readerIndex + q.length ≤ b.buffer.length := by rw [h.reader_eq, h.buffer_eq]; simp
    have hcopy : copyForward b.buffer b.readerIndex kCheapPrepend q.length =
        b.buffer.take kCheapPrepend ++ q ++ b.buffer.drop (kCheapPrepend + q.length) := by
      rw [copyForward_eq _ _ _ _ (by omega) hsz, ← peek, h.drop_peek, List.take_left]
    have hcl := h.cheap_le
    refine ⟨⟨b.buffer.take kCheapPrepend ++ q ++ b.buffer.drop (kCheapPrepend + q.length),
      kCheapPrepend, kCheapPrepend + q.length⟩, b.buffer.take kCheapPrepend,
      b.buffer.drop (kCheapPrepend + q.length), ?_, ⟨rfl, ?_, ?_, ?_⟩, ?_, ?_⟩
    · simp [makeSpace, slide, hgrow, check_of hcheap, hq, hcopy, readableBytes]
    · simp [hcl]
    · simp [hcl]
    · simp; omega
    · have hlen : b.buffer.length = pre.length + q.length + spare.length := by rw [h.buffer_eq]; simp; omega
      simp [hlen]; omega
    · simp [hcl]

theorem ensureWritableBytes_layout (h : Layout b pre q spare) (len : Nat) :
    ∃ b' pre' spare', b.ensureWritableBytes len = some b' ∧ Layout b' pre' q spare' ∧
      len ≤ spare'.length ∧ min pre.length kCheapPrepend ≤ pre'.length := by
  by_cases hlt : b.writableBytes < len
  · obtain ⟨b', pre', spare', hm, hl, hle, hpre⟩ := makeSpace_layout h (h.writableBytes_eq ▸ hlt)
    refine ⟨b', pre', spare', ?_, hl, hle, hpre⟩
    simp [ensureWritableBytes, hlt, hm, check_of (hl.writableBytes_eq.symm ▸ hle)]
  · have hle : len ≤ b.writableBytes := by omega
    exact ⟨b, pre, spare, by simp [ensureWritableBytes, hlt, check_of hle], h, h.writableBytes_eq ▸ hle, by omega⟩

/-- Where a vector can have the room, no sum wraps around. -/
theorem makeSpace64_eq {len : UInt64} (hfit : b.writerIndex + len.toNat ≤ kMaxSize) : b.makeSpace64 len = b.makeSpace len.toNat := by
  have hsize : (b.writerIndex + len.toNat) % 18446744073709551616 = b.writerIndex + len.toNat :=
    Nat.mod_eq_of_lt (by simp only [kMaxSize] at hfit; omega)
  have hneed : (len.toNat + kCheapPrepend) % 18446744073709551616 = len.toNat + kCheapPrepend :=
    Nat.mod_eq_of_lt (by simp only [kMaxSize, kCheapPrepend] at hfit ⊢; omega)
  simp [makeSpace64, makeSpace, hsize, hneed, check_of hfit]

theorem ensureWritableBytes64_layout (h : Layout b pre q spare) {len : UInt64}
    (hfit : len.toNat ≤ b.writableBytes ∨ b.writerIndex + len.toNat ≤ kMaxSize) :
    ∃ b' pre' spare', b.ensureWritableBytes64 len = some b' ∧ Layout b' pre' q spare' := by
  by_cases hlt : b.writableBytes < len.toNat
  · obtain ⟨b', pre', spare', hm, hl, hle, -⟩ := makeSpace_layout h (h.writableBytes_eq ▸ hlt)
    refine ⟨b', pre', spare', ?_, hl⟩
    have hsize := hl.wf.writer_le_size
    simp [ensureWritableBytes64, hlt, makeSpace64_eq (hfit.resolve_left (by omega)), hm, hl.writableBytes_eq, hsize, hle,
      Nat.not_lt.2 hsize]
  · have hsize := h.wf.writer_le_size
    exact ⟨b, pre, spare, by simp [ensureWritableBytes64, hlt, Nat.not_lt.1 hlt, Nat.not_lt.2 hsize], h⟩

theorem append_layout (h : Layout b pre q spare) (data : List UInt8) :
    ∃ b' pre' spare', b.append data = some b' ∧ Layout b' pre' (q ++ data) spare' ∧
      min pre.length kCheapPrepend ≤ pre'.length := by
  obtain ⟨b1, pre1, spare1, h1, l1, hle, hpre⟩ := ensureWritableBytes_layout h data.length
  obtain ⟨b2, h2, l2⟩ := fill_layout l1 data hle
  exact ⟨b2.hasWritten data.length, pre1, _, by simp [append, h1, h2], hasWritten_layout l2, hpre⟩

theorem prepend_layout (h : Layout b pre q spare) {data : List UInt8} (hd : data.length ≤ pre.length) :
    ∃ b', b.prepend data = some b' ∧ Layout b' (pre.take (pre.length - data.length)) (data ++ q) spare := by
  have hn : (pre.take (pre.length - data.length)).length = pre.length - data.length := by simp
  have hs : store b.buffer (pre.length - data.length) data =
      some (pre.take (pre.length - data.length) ++ data ++ (q ++ spare)) := by
    have hcut : b.buffer = pre.take (pre.length - data.length) ++ pre.drop (pre.length - data.length) ++ (q ++ spare) := by
      rw [List.take_append_drop, h.buffer_eq, List.append_assoc]
    have := store_append (pre.take (pre.length - data.length)) (pre.drop (pre.length - data.length)) (q ++ spare) data
      (by simp; omega)
    rwa [← hcut, hn] at this
  refine ⟨⟨pre.take (pre.length - data.length) ++ data ++ (q ++ spare), pre.length - data.length, b.writerIndex⟩,
    ?_, by simp, by simp, ?_, ?_⟩
  · have hc : data.length ≤ b.prependableBytes := by rw [prependableBytes, h.reader_eq]; exact hd
    simp only [prepend, check_of hc, h.reader_eq, hs]; rfl
  · simp [h.writer_eq]; omega
  · have := h.cheap_le
    rw [h.buffer_eq] at this
    simp at this ⊢; omega

theorem readFd_layout (h : Layout b pre q spare) (data : List UInt8) :
    ∃ b' pre' spare', b.readFd (some data) = some ((data.length : Int), b') ∧ Layout b' pre' (q ++ data) spare' ∧
      min pre.length kCheapPrepend ≤ pre'.length := by
  have hw := h.writableBytes_eq
  obtain ⟨b1, h1, l1⟩ := fill_layout h (data.take spare.length) (by simp)
  by_cases hle : data.length ≤ spare.length
  · have htake : data.take spare.length = data := List.take_of_length_le hle
    rw [htake] at h1 l1
    exact ⟨b1.hasWritten data.length, pre, _, by simp [readFd, hw, htake, h1, hle, hasWritten],
      hasWritten_layout l1, by omega⟩
  · -- the writable space is full; the rest went to `extrabuf` and is appended
    have hlen : (data.take spare.length).length = spare.length := by simp; omega
    have hnil : spare.drop spare.length = [] := List.drop_length
    rw [hlen, hnil, List.append_nil] at l1
    have l2 : Layout { b1 with writerIndex := b1.buffer.length } pre (q ++ data.take spare.length) [] :=
      ⟨by simp [l1.buffer_eq], l1.reader_eq, by simp [l1.buffer_eq], l1.cheap_le⟩
    obtain ⟨b3, pre3, spare3, h3, l3, hpre⟩ := append_layout l2 (data.drop spare.length)
    refine ⟨b3, pre3, spare3, by simp [readFd, hw, h1, hle, h3], ?_, hpre⟩
    rwa [List.append_assoc, List.take_append_drop] at l3

/-- The readable bytes are `q`, wherever they lie. -/
def Holds (b : Buffer) (q : List UInt8) : Prop := ∃ pre spare, Layout b pre q spare

theorem new_holds : Holds new [] := ⟨_, _, new_layout⟩

theorem Holds.content_eq (h : Holds b q) : b.content = q := by
  obtain ⟨_, _, hl⟩ := h
  exact hl.content_eq

theorem Holds.readableBytes_eq (h : Holds b q) : b.readableBytes = q.length := by
  obtain ⟨_, _, hl⟩ := h
  exact hl.readableBytes_eq

theorem readFd_holds (h : Holds b q) (data : List UInt8) :
    ∃ b', b.readFd (some data) = some ((data.length : Int), b') ∧ Holds b' (q ++ data) := by
  obtain ⟨_, _, hl⟩ := h
  obtain ⟨b', pre', spare', h', hl', -⟩ := readFd_layout hl data
  exact ⟨b', h', pre', spare', hl'⟩

/-! ## One call, and every run -/

/-- One legal call: no assert fails, no copy leaves `buffer_`, and the readable bytes and the string
returned are the queue's. -/
theorem step_layout (h : Layout b pre q spare) {op : Op} (hop : op.Legal b) :
    ∃ b' pre' spare', b.step op = some (op.taken q, b') ∧ Layout b' pre' (op.push q) spare' := by
  have hr := h.readableBytes_eq
  cases op with
  | append data =>
    obtain ⟨b', pre', spare', h1, l1, _⟩ := append_layout h data
    exact ⟨b', pre', spare', by simp [step, h1, Op.taken], l1⟩
  | appendInt64 x =>
    obtain ⟨b', pre', spare', h1, l1, _⟩ := append_layout h (NetOrder.netBytes 8 (x % 18446744073709551616).toNat)
    exact ⟨b', pre', spare', by simp [step, appendInt64, h1, Op.taken], l1⟩
  | appendInt32 x =>
    obtain ⟨b', pre', spare', h1, l1, _⟩ := append_layout h (NetOrder.netBytes 4 (x % 4294967296).toNat)
    exact ⟨b', pre', spare', by simp [step, appendInt32, h1, Op.taken], l1⟩
  | prepend data =>
    have hd : data.length ≤ pre.length := h.reader_eq ▸ hop
    obtain ⟨b', h1, l1⟩ := prepend_layout h hd
    exact ⟨b', _, _, by simp [step, h1, Op.taken], l1⟩
  | retrieve len =>
    obtain ⟨b', h1, l1⟩ := retrieve_layout h len (hr ▸ hop)
    exact ⟨b', _, _, by simp [step, h1, Op.taken], l1⟩
  | retrieveUntil off =>
    have hoff : off ≤ q.length := hr ▸ hop
    obtain ⟨b', h1, l1⟩ := retrieve_layout h off hoff
    have hend : b.peek + off ≤ b.beginWrite := by
      rw [peek, beginWrite, h.reader_eq, h.writer_eq]; omega
    exact ⟨b', _, _, by simp [step, retrieveUntil, check_of hend, h1, Op.taken], l1⟩
  | retrieveAll => exact ⟨_, _, _, rfl, retrieveAll_layout h⟩
  | retrieveAsString len =>
    have hlen : len ≤ q.length := hr ▸ hop
    obtain ⟨b', h1, l1⟩ := retrieve_layout h len hlen
    have hout : (q ++ spare).take len = q.take len := List.take_append_of_le_length hlen
    exact ⟨b', _, _, by simp [step, retrieveAsString, hr, hlen, h.drop_peek, hout, h1, Op.taken], l1⟩
  | retrieveAllAsString =>
    obtain ⟨b', h1, l1⟩ := retrieve_layout h q.length (Nat.le_refl _)
    refine ⟨b', _, _, ?_, by rwa [List.drop_length] at l1⟩
    simp [step, retrieveAllAsString, retrieveAsString, hr, h.drop_peek, h1, Op.taken]
  | ensureWritableBytes len =>
    obtain ⟨b', pre', spare', h1, l1⟩ := ensureWritableBytes64_layout h hop
    exact ⟨b', pre', spare', by simp [step, h1, Op.taken], l1⟩
  | hasWritten data =>
    obtain ⟨b', h1, l1⟩ := fill_layout h data (h.writableBytes_eq ▸ hop)
    exact ⟨_, _, _, by simp [step, h1, Op.taken], hasWritten_layout l1⟩
  | readFd result =>
    cases result with
    | none => exact ⟨b, pre, spare, rfl, h⟩
    | some data =>
      obtain ⟨b', pre', spare', h1, l1, _⟩ := readFd_layout h data
      exact ⟨b', pre', spare', by simp [step, h1, Op.taken], l1⟩

end Layout

theorem Reach.layout {b : Buffer} {q : List UInt8} (h : Reach b q) :
    ∃ pre spare, Layout b pre q spare := by
  induction h with
  | new => exact ⟨_, _, new_layout⟩
  | call op _ hop hstep ih =>
    obtain ⟨pre, spare, l⟩ := ih
    obtain ⟨b', pre', spare', h1, l1⟩ := step_layout l hop
    rw [h1] at hstep
    cases hstep
    exact ⟨pre', spare', l1⟩

/-- **`Buffer` refines the byte queue.** The constructor passes its asserts; after any legal calls on
a fresh buffer the indices are in order, the readable bytes are the queue's, and every further legal
call passes all its asserts, returns what the queue returns and leads to such a state again. -/
theorem buffer_refines_queue : construct = some new ∧ ∀ {b : Buffer} {q : List UInt8}, Reach b q →
    b.readerIndex ≤ b.writerIndex ∧ b.writerIndex ≤ b.buffer.length ∧ b.content = q ∧
      ∀ op : Op, op.Legal b → ∃ b', b.step op = some (op.taken q, b') ∧ Reach b' (op.push q) := by
  refine ⟨construct_eq, fun {b q} h => ?_⟩
  obtain ⟨pre, spare, l⟩ := h.layout
  refine ⟨l.wf.reader_le_writer, l.wf.writer_le_size, l.content_eq, fun op hop => ?_⟩
  obtain ⟨b', pre', spare', h1, _⟩ := step_layout l hop
  exact ⟨b', h1, Reach.call op h hop h1⟩

/-- Five bytes appended, two taken out. -/
theorem buffer_refines_queue_run : ∃ b, Reach b [3, 4, 5] ∧ b.content = [3, 4, 5] := by
  obtain ⟨_, _, _, hstep⟩ := buffer_refines_queue.2 Reach.new
  obtain ⟨b1, _, r1⟩ := hstep (.append [1, 2, 3, 4, 5]) trivial
  obtain ⟨_, _, _, hstep1⟩ := buffer_refines_queue.2 r1
  obtain ⟨_, _, l1⟩ := r1.layout
  have htwo : 2 ≤ b1.readableBytes := by rw [l1.readableBytes_eq]; decide
  obtain ⟨b2, _, r2⟩ := hstep1 (.retrieve 2) htwo
  obtain ⟨_, _, hc2, _⟩ := buffer_refines_queue.2 r2
  exact ⟨b2, r2, hc2⟩

/-- On a fresh buffer `ensureWritableBytes(SIZE_MAX)` fails the assert of `makeSpace`: `len + kCheapPrepend` is 7. With one byte
in the buffer, `ensureWritableBytes(SIZE_MAX - 8)` passes all asserts and leaves an empty vector. -/
theorem ensureWritableBytes_wraps : new.step (.ensureWritableBytes 18446744073709551615) = none ∧
    ∃ b b', Reach b [1] ∧ b.step (.ensureWritableBytes 18446744073709551607) = some ([], b') ∧
      b'.buffer.length < b'.writerIndex := by
  have happend : new.step (.append [1]) =
      some ([], ⟨List.replicate 8 0 ++ [1] ++ List.replicate 1023 0, 8, 9⟩) := by decide +kernel
  refine ⟨by decide +kernel, _, ⟨[], 8, 9⟩, Reach.call (.append [1]) Reach.new trivial happend, ?_, by decide⟩
  decide +kernel

end Buffer
end ChatReactor
