import ChatReactor.Buffer
import ChatReactor.Lib.SwapPermutations

/-!
# `permutation` (`excercises/chatServer/test/permutation.h`)

| here | there |
| --- | --- |
| `swapChars` | the three assignments of a swap (`:18-20`, `:23-25`) |
| `swapLoop` | the loop over `p` (`:17-26`), with the recursive call as an argument |
| `permutationHelp` | `permutationHelp` (`:10-29`) |
| `permutation` | `permutation` (`:32-39`): the memory behind `pStr`, or a null pointer |

`mem` is the memory from `pStr` to its end, and pointers into it are offsets. `none` is an access behind the end: `left` is
how much of the memory is left at `pBegin`, or at `p`, so that there is nothing to read when it is 0.
-/

namespace ChatReactor

open SwapPermutations

def swapChars (mem : List UInt8) (p pBegin : Nat) : Option (List UInt8) := do
  let tmp ← mem[p]?
  let c ← mem[pBegin]?
  return (mem.set p c).set pBegin tmp

def swapLoop (help : List UInt8 → List (List UInt8) → Option (List UInt8 × List (List UInt8))) (pBegin : Nat) :
    Nat → Nat → List UInt8 → List (List UInt8) → Option (List UInt8 × List (List UInt8))
  | 0, _, _, _ => none
  | left + 1, p, mem, result => do
    if (← mem[p]?) = 0 then return (mem, result)
    else
      let mem ← swapChars mem p pBegin
      let (mem, result) ← help mem result
      let mem ← swapChars mem p pBegin
      swapLoop help pBegin left (p + 1) mem result

def permutationHelp : Nat → Nat → List UInt8 → List (List UInt8) → Option (List UInt8 × List (List UInt8))
  | 0, _, _, _ => none
  | left + 1, pBegin, mem, result => do
    if (← mem[pBegin]?) = 0 then return (mem, result ++ [cString mem])
    else swapLoop (permutationHelp left (pBegin + 1)) pBegin (left + 1) pBegin mem result

def permutation : Option (List UInt8) → Option (Option (List UInt8) × List (List UInt8))
  | none => some (none, [])
  | some mem => do
    let (mem, result) ← permutationHelp mem.length 0 mem []
    return (some mem, result)

/-! ## A swap -/

section
variable {fixed rest : List UInt8} {n : Nat}

/-- Memory with some characters in front of the text `f`, and something behind its NUL. -/
def memory (fixed : List UInt8) {n : Nat} (f : Fin n → UInt8) (rest : List UInt8) : List UInt8 :=
  fixed ++ (List.ofFn f ++ 0 :: rest)

theorem memory_cons (f : Fin (n + 1) → UInt8) :
    memory fixed f rest = memory (fixed ++ [f 0]) (fun i => f i.succ) rest := by
  simp [memory, List.ofFn_succ]

theorem memory_getElem (f : Fin n → UInt8) (p : Fin n) : (memory fixed f rest)[fixed.length + p.val]? = some (f p) := by
  rw [memory, List.getElem?_append_right (by omega), Nat.add_sub_cancel_left, List.getElem?_append_left (by simp)]
  simp

theorem memory_end (f : Fin n → UInt8) : (memory fixed f rest)[fixed.length + n]? = some 0 := by
  rw [memory, List.getElem?_append_right (by omega), Nat.add_sub_cancel_left, List.getElem?_append_right (by simp)]
  simp

theorem memory_set (f : Fin n → UInt8) (p : Fin n) (c : UInt8) :
    (memory fixed f rest).set (fixed.length + p) c = fixed ++ ((List.ofFn f).set p c ++ 0 :: rest) := by
  rw [memory, List.set_append_right _ _ (by omega), Nat.add_sub_cancel_left, List.set_append_left _ _ (by simp)]

theorem swapChars_memory (f : Fin (n + 1) → UInt8) (p : Fin (n + 1)) :
    swapChars (memory fixed f rest) (fixed.length + p) fixed.length =
      some (memory fixed (fun i => f (Equiv.swap 0 p i)) rest) := by
  have hfirst : (memory fixed f rest)[fixed.length]? = some (f 0) := memory_getElem f 0
  rw [swapChars, bind_of_eq_some (memory_getElem f p), bind_of_eq_some hfirst, memory_set, memory, ← ofFn_swap f p]
  simp [List.set_append_right]

/-! ## The loop and the recursion -/

/-- Each round leaves the memory as it was. -/
theorem swapLoop_spec {f : Fin (n + 1) → UInt8} (hf : ∀ i, f i ≠ 0)
    {help : List UInt8 → List (List UInt8) → Option (List UInt8 × List (List UInt8))} {found : Fin (n + 1) → List (List UInt8)}
    (hhelp : ∀ p result, help (memory fixed (fun i => f (Equiv.swap 0 p i)) rest) result =
      some (memory fixed (fun i => f (Equiv.swap 0 p i)) rest, result ++ found p))
    {ps : List (Fin (n + 1))} {j left : Nat} (hps : (List.finRange (n + 1)).drop j = ps) (hj : j ≤ n + 1)
    (hleft : ps.length < left) (result : List (List UInt8)) :
    swapLoop help fixed.length left (fixed.length + j) (memory fixed f rest) result =
      some (memory fixed f rest, result ++ ps.flatMap found) := by
  induction ps generalizing j left result with
  | nil =>
    obtain ⟨left, rfl⟩ := Nat.exists_eq_add_one.2 hleft
    obtain rfl : j = n + 1 := by
      have hlen := List.drop_eq_nil_iff.1 hps
      rw [List.length_finRange] at hlen
      omega
    rw [swapLoop, bind_of_eq_some (memory_end f), if_pos rfl, List.flatMap_nil, List.append_nil]
    rfl
  | cons p ps ih =>
    obtain ⟨left, rfl⟩ := Nat.exists_eq_add_one.2 (Nat.zero_lt_of_lt hleft)
    have hlt : j < (List.finRange (n + 1)).length := by
      refine Nat.lt_of_not_le fun hle => ?_
      rw [List.drop_eq_nil_of_le hle] at hps
      cases hps
    rw [List.drop_eq_getElem_cons hlt, List.cons.injEq] at hps
    obtain ⟨hp, hps⟩ := hps
    obtain rfl : p.val = j := by simp [← hp]
    rw [swapLoop, bind_of_eq_some (memory_getElem f p), if_neg (hf p), bind_of_eq_some (swapChars_memory f p),
      bind_of_eq_some (hhelp p result)]
    dsimp only
    rw [bind_of_eq_some (swapChars_memory _ p)]
    simp only [Equiv.swap_apply_self]
    rw [Nat.add_assoc, ih hps p.isLt (Nat.lt_of_succ_lt_succ hleft) _, List.flatMap_cons, List.append_assoc]

theorem cString_memory_zero (h : 0 ∉ fixed) (f : Fin 0 → UInt8) : cString (memory fixed f rest) = fixed := by
  rw [memory, List.ofFn_zero, List.nil_append, cString_terminated h]

/-- With `fixed` in front of `f`, the strings are `fixed` followed by the arrangements of `f`. -/
theorem permutationHelp_spec (f : Fin n → UInt8) (hf : ∀ i, f i ≠ 0) (hfixed : 0 ∉ fixed) {left : Nat} (hleft : n < left)
    (result : List (List UInt8)) :
    permutationHelp left fixed.length (memory fixed f rest) result =
      some (memory fixed f rest, result ++ (arrangements n f).map (fixed ++ ·)) := by
  obtain ⟨left, rfl⟩ := Nat.exists_eq_add_one.2 (Nat.zero_lt_of_lt hleft)
  induction n generalizing fixed left result with
  | zero =>
    have hend : (memory fixed f rest)[fixed.length]? = some 0 := memory_end f
    rw [permutationHelp, bind_of_eq_some hend, if_pos rfl, cString_memory_zero hfixed f]
    simp [arrangements]
  | succ n ih =>
    obtain ⟨left, rfl⟩ := Nat.exists_eq_add_one.2 (show 0 < left by omega)
    have hfirst : (memory fixed f rest)[fixed.length]? = some (f 0) := memory_getElem f 0
    rw [permutationHelp, bind_of_eq_some hfirst, if_neg (hf 0)]
    -- one more character is fixed in the recursive call
    have hhelp : ∀ p result, permutationHelp (left + 1) (fixed.length + 1)
        (memory fixed (fun i => f (Equiv.swap 0 p i)) rest) result =
          some (memory fixed (fun i => f (Equiv.swap 0 p i)) rest,
            result ++ (arrangements n fun i => f (Equiv.swap 0 p i.succ)).map (fixed ++ f p :: ·)) := by
      intro p result
      have hfixed' : 0 ∉ fixed ++ [f p] := by simp [hfixed, (hf p).symm]
      have hrec := ih (fun i => f (Equiv.swap 0 p i.succ)) (fun i => hf _) hfixed' result left (by omega)
      rw [memory_cons, Equiv.swap_apply_left]
      simpa using hrec
    have hrounds : (List.finRange (n + 1)).length < left + 1 + 1 := by rwa [List.length_finRange]
    have hloop := swapLoop_spec hf hhelp List.drop_zero (Nat.zero_le _) hrounds result
    have hcollect : ((List.finRange (n + 1)).flatMap fun p =>
        (arrangements n fun i => f (Equiv.swap 0 p i.succ)).map (fixed ++ f p :: ·)) =
          (arrangements (n + 1) f).map (fixed ++ ·) := by
      simp [arrangements, List.map_flatMap, Function.comp_def]
    rw [← hcollect]
    exact hloop

/-- **All arrangements.** For a string of `n` characters `permutation` returns the `n!` strings that are its images under
the permutations of its positions, which are distinct if its characters are, and leaves it as it was. -/
theorem permutation_spec (str rest : List UInt8) (h : 0 ∉ str) :
    ∃ result, permutation (some (str ++ 0 :: rest)) = some (some (str ++ 0 :: rest), result) ∧
      result.length = str.length.factorial ∧
      (result : Multiset (List UInt8)) =
        (Finset.univ : Finset (Equiv.Perm (Fin str.length))).val.map (fun σ => List.ofFn fun i => str.get (σ i)) ∧
      (str.Nodup → result.Nodup) := by
  have hmem : str ++ 0 :: rest = memory [] str.get rest := by rw [memory, List.ofFn_get, List.nil_append]
  have hleft : str.length < (memory [] str.get rest).length := by simp [← hmem]
  have hhelp : permutationHelp (memory [] str.get rest).length 0 (memory [] str.get rest) [] =
      some (memory [] str.get rest, (arrangements str.length str.get).map ([] ++ ·)) :=
    permutationHelp_spec str.get (fun i hi => h (hi ▸ List.get_mem str i)) List.not_mem_nil hleft []
  have hmap : (arrangements str.length str.get).map ([] ++ ·) = arrangements str.length str.get := List.map_id _
  refine ⟨arrangements str.length str.get, ?_, length_arrangements _ _, arrangements_eq _ _, fun hnodup => ?_⟩
  · rw [permutation, hmem, bind_of_eq_some hhelp, hmap]
    rfl
  · exact nodup_arrangements (List.nodup_iff_injective_get.1 hnodup)

/-- The six arrangements of `abc`. -/
theorem permutation_spec_abc :
    ∃ result, permutation (some [97, 98, 99, 0]) = some (some [97, 98, 99, 0], result) ∧ result.length = 6 ∧ result.Nodup := by
  obtain ⟨result, hresult, hlen, -, hnodup⟩ := permutation_spec [97, 98, 99] [] (by decide)
  exact ⟨result, hresult, hlen, hnodup (by decide)⟩

end
end ChatReactor
