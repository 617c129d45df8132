import ChatReactor.Lib.Runs
import Mathlib.Algebra.Ring.Nat
import Mathlib.Data.List.Basic

/-!
# `FileUtil::AppendFile` (`FileUtil.h:63-84`, `FileUtil.cc:36-68`)

| here | there |
| --- | --- |
| `Fwrite` | one answer of `fwrite_unlocked`, and the value of `ferror` after it |
| `AppendFile.write` | the member; it accepts at most the bytes that it is given |
| `appendLoop` | the `while` loop of `append`; `k` counts the calls of `fwrite_unlocked` |
| `AppendCall` | a call of `append`, with the answers that it meets |

The loop goes on as long as `fwrite_unlocked` accepts something. An `append` that has given up adds all of `len` to
`writtenBytes_` nevertheless.
-/

namespace ChatReactor

structure Fwrite where
  taken : Nat
  ferror : Int
  deriving DecidableEq, Repr

structure AppendFile where
  /-- all bytes that `fwrite_unlocked` has accepted -/
  accepted : List UInt8
  /-- a `size_t` -/
  writtenBytes : Nat
  /-- the errors reported to `stderr` -/
  reported : List Int
  deriving DecidableEq, Repr

structure AppendCall where
  logline : List UInt8
  results : Nat → Fwrite
  /-- `len` is a `size_t` -/
  logline_lt : logline.length < 2 ^ 64

namespace AppendFile

def new : AppendFile := ⟨[], 0, []⟩

def write (f : AppendFile) (logline : List UInt8) (r : Fwrite) : Nat × AppendFile :=
  let n := min r.taken logline.length
  (n, { f with accepted := f.accepted ++ logline.take n })

/-- `none` if the loop has not ended after so many rounds. -/
def appendLoop (logline : List UInt8) (results : Nat → Fwrite) :
    Nat → (k n remain : Nat) → AppendFile → Option AppendFile
  | 0, _, _, _, _ => none
  | fuel + 1, k, n, remain, f =>
    if remain > 0 then
      let (x, f) := f.write ((logline.drop n).take remain) (results k)
      if x = 0 then
        if (results k).ferror ≠ 0 then some { f with reported := f.reported ++ [(results k).ferror] } else some f
      else appendLoop logline results fuel (k + 1) (n + x) (logline.length - (n + x)) f
    else some f

def append (f : AppendFile) (c : AppendCall) : Option AppendFile := do
  let (n, f) := f.write c.logline (c.results 0)
  let f ← appendLoop c.logline c.results (c.logline.length + 1) 1 n (c.logline.length - n) f
  return { f with writtenBytes := (f.writtenBytes + c.logline.length) % 2 ^ 64 }

abbrev Steps : AppendFile → List AppendCall → AppendFile → Prop := Run append fun _ _ => True

end AppendFile

/-! ## The answers that lead to the end -/

/-- From the `k`-th call on, `need` bytes are accepted before one that accepts nothing. -/
def AcceptsFrom (results : Nat → Fwrite) (k need : Nat) : Prop :=
  ∃ j, need ≤ ((List.range j).map fun i => (results (k + i)).taken).sum ∧ ∀ i < j, (results (k + i)).taken ≠ 0

theorem acceptsFrom_zero (results : Nat → Fwrite) (k : Nat) : AcceptsFrom results k 0 := ⟨0, Nat.zero_le _, by simp⟩

theorem acceptsFrom_step {results : Nat → Fwrite} {k need : Nat} (hneed : 0 < need) :
    AcceptsFrom results k need ↔ (results k).taken ≠ 0 ∧ AcceptsFrom results (k + 1) (need - (results k).taken) := by
  have hshift : ∀ i, k + 1 + i = k + (i + 1) := fun i => by omega
  have hsum : ∀ j, ((List.range (j + 1)).map fun i => (results (k + i)).taken).sum =
      (results k).taken + ((List.range j).map fun i => (results (k + 1 + i)).taken).sum := by
    intro j
    simp only [List.range_succ_eq_map, List.map_cons, List.map_map, List.sum_cons, Function.comp_def, hshift]
    rfl
  constructor
  · rintro ⟨j, hle, hne⟩
    cases j with
    | zero => simp at hle; omega
    | succ j =>
      rw [hsum] at hle
      refine ⟨hne 0 (by omega), j, by omega, fun i hi => ?_⟩
      rw [hshift]
      exact hne (i + 1) (by omega)
  · rintro ⟨hfirst, j, hle, hne⟩
    refine ⟨j + 1, by rw [hsum]; omega, fun i hi => ?_⟩
    cases i with
    | zero => exact hfirst
    | succ i =>
      rw [← hshift]
      exact hne i (by omega)

/-- All bytes are accepted: the first `fwrite_unlocked` may accept nothing, a later one may not before the end. -/
def AppendCall.Full (c : AppendCall) : Prop := AcceptsFrom c.results 1 (c.logline.length - (c.results 0).taken)

namespace AppendFile

/-- The loop ends, with the next `m` bytes accepted. -/
theorem appendLoop_spec (logline : List UInt8) (results : Nat → Fwrite) {fuel : Nat} (k : Nat) {n : Nat}
    (hn : n ≤ logline.length) (hfuel : logline.length - n < fuel) (f : AppendFile) :
    ∃ f' m, appendLoop logline results fuel k n (logline.length - n) f = some f' ∧
      f'.accepted = f.accepted ++ (logline.drop n).take m ∧ f'.writtenBytes = f.writtenBytes ∧
      m ≤ logline.length - n ∧ (m = logline.length - n ↔ AcceptsFrom results k (logline.length - n)) := by
  induction fuel generalizing k n f with
  | zero => omega
  | succ fuel ih =>
    by_cases hdone : logline.length - n = 0
    · refine ⟨f, 0, ?_, by simp, rfl, Nat.zero_le _, ?_⟩
      · rw [appendLoop, if_neg (by omega)]
      · rw [hdone]
        exact iff_of_true rfl (acceptsFrom_zero results k)
    · have hrest : ((logline.drop n).take (logline.length - n)) = logline.drop n :=
        List.take_of_length_le (Nat.le_of_eq List.length_drop)
      have hmin : min (results k).taken (logline.drop n).length = min (results k).taken (logline.length - n) := by
        rw [List.length_drop]
      rw [appendLoop, if_pos (Nat.pos_of_ne_zero hdone), hrest]
      simp only [write, hmin]
      by_cases hzero : (results k).taken = 0
      · -- nothing is accepted: the loop is left
        have hnot : ¬ AcceptsFrom results k (logline.length - n) := fun h =>
          ((acceptsFrom_step (Nat.pos_of_ne_zero hdone)).1 h).1 hzero
        have hx : min (results k).taken (logline.length - n) = 0 := by omega
        rw [if_pos hx, hx]
        split_ifs
        · exact ⟨_, 0, rfl, rfl, rfl, Nat.zero_le _, iff_of_false (by omega) hnot⟩
        · exact ⟨_, 0, rfl, rfl, rfl, Nat.zero_le _, iff_of_false (by omega) hnot⟩
      · generalize hx : min (results k).taken (logline.length - n) = x
        obtain ⟨f', m, hf', haccepted, hwritten, hm, hiff⟩ :=
          ih (k + 1) (n := n + x) (by omega) (by omega) { f with accepted := f.accepted ++ (logline.drop n).take x }
        refine ⟨f', x + m, ?_, ?_, hwritten, by omega, ?_⟩
        · rw [if_neg (by omega), hf']
        · rw [haccepted, List.append_assoc, List.take_add, List.drop_drop]
        · have hleft : logline.length - (n + x) = logline.length - n - (results k).taken := by omega
          rw [acceptsFrom_step (Nat.pos_of_ne_zero hdone), ← hleft, ← hiff]
          omega

/-- **One call of `append`**: it returns, with the first `m` bytes of the line accepted. -/
theorem append_spec (f : AppendFile) (c : AppendCall) :
    ∃ f' m, f.append c = some f' ∧ f'.accepted = f.accepted ++ c.logline.take m ∧
      f'.writtenBytes = (f.writtenBytes + c.logline.length) % 2 ^ 64 ∧ m ≤ c.logline.length ∧
      (m = c.logline.length ↔ c.Full) := by
  generalize hn : min (c.results 0).taken c.logline.length = n
  have hfuel : c.logline.length - n < c.logline.length + 1 := by omega
  obtain ⟨f', m, hf', haccepted, hwritten, hm, hiff⟩ := appendLoop_spec c.logline c.results 1 (by omega) hfuel
    { f with accepted := f.accepted ++ c.logline.take n }
  refine ⟨{ f' with writtenBytes := (f'.writtenBytes + c.logline.length) % 2 ^ 64 }, n + m, ?_, ?_, ?_, by omega, ?_⟩
  · simp only [append, write, hn, hf', Option.bind_eq_bind, Option.bind_some]
    rfl
  · rw [List.take_add, ← List.append_assoc]
    exact haccepted
  · simp only [hwritten]
  · have hleft : c.logline.length - n = c.logline.length - (c.results 0).taken := by omega
    rw [AppendCall.Full, ← hleft, ← hiff]
    omega

theorem steps_exist (f : AppendFile) (calls : List AppendCall) : ∃ f', Steps f calls f' := by
  induction calls generalizing f with
  | nil => exact ⟨f, .nil f⟩
  | cons c calls ih =>
    obtain ⟨f₁, _, hf₁, -⟩ := append_spec f c
    obtain ⟨f', hf'⟩ := ih f₁
    exact ⟨f', .cons trivial hf₁ hf'⟩

/-- The total is right. -/
def Exact (f : AppendFile) : Prop := f.writtenBytes = f.accepted.length

/-- A call keeps the total right exactly if it is accepted in full, and the total remains a `size_t`. -/
theorem Exact.append_iff {f f' : AppendFile} {c : AppendCall} (h : f.Exact) (hf' : f.append c = some f') :
    f'.Exact ↔ c.Full ∧ f.writtenBytes + c.logline.length < 2 ^ 64 := by
  obtain ⟨f₁, m, hf₁, haccepted, hwritten, hm, hiff⟩ := append_spec f c
  obtain rfl : f₁ = f' := Option.some.inj (hf₁.symm.trans hf')
  have hlen : (c.logline.take m).length = m := List.length_take_of_le hm
  have hlt := c.logline_lt
  unfold Exact at h ⊢
  rw [hwritten, haccepted, List.length_append, hlen, ← h, ← hiff]
  omega

/-- What a sequence of calls on a new file should come to. -/
structure Accounted (calls : List AppendCall) : Prop where
  returns : ∃ f, Steps new calls f
  prefixes : ∀ pre c post f f', calls = pre ++ c :: post → Steps new pre f → f.append c = some f' →
    ∃ bytes, bytes <+: c.logline ∧ f'.accepted = f.accepted ++ bytes
  total : ∀ pre post f, calls = pre ++ post → Steps new pre f → f.Exact

/-- The calls that keep the total right, one after the other. -/
theorem exact_run_iff {f f' : AppendFile} {calls : List AppendCall} (h : Steps f calls f') (hf : f.writtenBytes < 2 ^ 64) :
    Run append (fun f c => True ∧ c.Full ∧ f.writtenBytes + c.logline.length < 2 ^ 64) f calls f' ↔
      (∀ c ∈ calls, c.Full) ∧ f.writtenBytes + (calls.map fun c => c.logline.length).sum < 2 ^ 64 := by
  induction h with
  | nil f => exact ⟨fun _ => ⟨by simp, by simpa using hf⟩, fun _ => .nil f⟩
  | @cons f f₁ f' c calls _ hf₁ _ ih =>
    obtain ⟨f₂, _, hf₂, -, hwritten, -⟩ := append_spec f c
    obtain rfl : f₂ = f₁ := Option.some.inj (hf₂.symm.trans hf₁)
    have hrest := ih (hwritten ▸ Nat.mod_lt _ (by decide))
    rw [List.forall_mem_cons, List.map_cons, List.sum_cons]
    constructor
    · rintro (_ | ⟨⟨-, hfull, hlt⟩, hf₁', hrun⟩)
      obtain rfl := Option.some.inj (hf₁.symm.trans hf₁')
      obtain ⟨hall, hsum⟩ := hrest.1 hrun
      rw [hwritten, Nat.mod_eq_of_lt hlt] at hsum
      exact ⟨⟨hfull, hall⟩, by omega⟩
    · rintro ⟨⟨hfull, hall⟩, hsum⟩
      have hlt : f.writtenBytes + c.logline.length < 2 ^ 64 := by omega
      refine .cons ⟨trivial, hfull, hlt⟩ hf₁ (hrest.2 ⟨hall, ?_⟩)
      rw [hwritten, Nat.mod_eq_of_lt hlt]
      omega

/-- **The accounting of `AppendFile`**, for every sequence of calls and of answers: every call returns, the bytes that are
accepted are the beginning of its line, and `writtenBytes()` is right exactly as long as every call is accepted in full. -/
theorem accounted_iff (calls : List AppendCall) :
    Accounted calls ↔ (∀ c ∈ calls, c.Full) ∧ (calls.map fun c => c.logline.length).sum < 2 ^ 64 := by
  obtain ⟨f, hrun⟩ := steps_exist new calls
  have hexact := hrun.always_iff (I := Exact) (fun hf _ hc => hf.append_iff hc) (rfl : new.Exact)
  rw [exact_run_iff hrun (by decide), show new.writtenBytes = 0 from rfl, Nat.zero_add] at hexact
  rw [← hexact]
  refine ⟨Accounted.total, fun htotal => ⟨⟨f, hrun⟩, ?_, htotal⟩⟩
  intro pre c post f₀ f₁ _ _ hf₁
  obtain ⟨f₂, m, hf₂, haccepted, -⟩ := append_spec f₀ c
  obtain rfl := Option.some.inj (hf₂.symm.trans hf₁)
  exact ⟨c.logline.take m, List.take_prefix m _, haccepted⟩

/-- `fwrite_unlocked` accepts one of three bytes and then fails: two bytes are lost, and counted. -/
theorem lost_bytes_counted : ∃ (c : AppendCall) (f : AppendFile), c.logline = [97, 98, 99] ∧ new.append c = some f ∧
    f.accepted = [97] ∧ f.writtenBytes = 3 ∧ f.reported = [28] :=
  ⟨⟨[97, 98, 99], fun k => if k = 0 then ⟨1, 0⟩ else ⟨0, 28⟩, by decide⟩, _, rfl, rfl, rfl, rfl, rfl⟩

end AppendFile
end ChatReactor
