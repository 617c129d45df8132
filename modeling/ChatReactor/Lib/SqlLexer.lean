import Mathlib.Data.List.Basic

/-!
# The lexer of MySQL

The tokens of a statement, in a character set whose multi-byte characters have no ASCII bytes in them, with the default
`sql_mode`: strings between `'` or `"`, in which the quote is doubled or escaped by a backslash; identifiers between
backquotes; words; comments; any other byte is a symbol. `none` is a string, an identifier or a comment without an end.

`Body` is how a string ends and what it denotes, as a relation. The main results are about a text that has been put
between quotes as it is: if it is `Plain` the literal denotes it (`body_of_plain`), and if it is not, no literal that
begins there does (`Body.of_pasted`). For this the text has to be followed by its quote and a byte that is neither a quote
nor a backslash.
-/

namespace SqlLexer

/-- What a backslash and `c` stand for. The pairs `\%` and `\_` stay as they are. -/
def escape (c : UInt8) : List UInt8 :=
  if c = 110 then [10]        -- n
  else if c = 116 then [9]    -- t
  else if c = 114 then [13]   -- r
  else if c = 98 then [8]     -- b
  else if c = 48 then [0]     -- 0
  else if c = 90 then [26]    -- Z
  else if c = 37 ∨ c = 95 then [92, c]
  else [c]

/-- The value of a string behind its opening quote `q`, and the text behind the closing one. -/
def readBody (q : UInt8) : List UInt8 → Option (List UInt8 × List UInt8)
  | [] => none
  | [c] => if c = q then some ([], []) else none
  | c :: d :: rest =>
    if c = q then
      if d = q then (readBody q rest).map fun r => (q :: r.1, r.2) else some ([], d :: rest)
    else if c = 92 then (readBody q rest).map fun r => (escape d ++ r.1, r.2)
    else (readBody q (d :: rest)).map fun r => (c :: r.1, r.2)

def readIdent : List UInt8 → Option (List UInt8 × List UInt8)
  | 96 :: 96 :: cs => (readIdent cs).map fun r => (96 :: r.1, r.2)
  | 96 :: cs => some ([], cs)
  | c :: cs => (readIdent cs).map fun r => (c :: r.1, r.2)
  | [] => none

/-- Behind the end of a comment. -/
def skipComment : List UInt8 → Option (List UInt8)
  | 42 :: 47 :: cs => some cs
  | _ :: cs => skipComment cs
  | [] => none

inductive Token
  | word (s : List UInt8)
  | ident (s : List UInt8)
  | str (s : List UInt8)
  | symbol (c : UInt8)
  deriving DecidableEq, Repr

def isSpace (c : UInt8) : Bool := c = 32 ∨ (9 ≤ c ∧ c ≤ 13)

/-- Letters, digits, `_`, `$` and the bytes of multi-byte characters. -/
def isWord (c : UInt8) : Bool :=
  (48 ≤ c ∧ c ≤ 57) ∨ (65 ≤ c ∧ c ≤ 90) ∨ (97 ≤ c ∧ c ≤ 122) ∨ c = 95 ∨ c = 36 ∨ 128 ≤ c

inductive Next
  | done
  | bad
  | skip (rest : List UInt8)
  | token (t : Token) (rest : List UInt8)
  deriving DecidableEq, Repr

def Next.ofRead (t : List UInt8 → Token) : Option (List UInt8 × List UInt8) → Next
  | some (s, rest) => .token (t s) rest
  | none => .bad

/-- What the text begins with. -/
def next : List UInt8 → Next
  | [] => .done
  | c :: cs =>
    if isSpace c then .skip cs
    else if isWord c then .token (.word (c :: cs.takeWhile isWord)) (cs.dropWhile isWord)
    else if c = 39 ∨ c = 34 then .ofRead .str (readBody c cs)
    else if c = 96 then .ofRead .ident (readIdent cs)
    else if c = 35 ∨ (c = 45 ∧ cs.head? = some 45 ∧ cs.tail.head?.all (· ≤ 32)) then .skip (cs.dropWhile (· ≠ 10))
    else if c = 47 ∧ cs.head? = some 42 then ((skipComment cs.tail).map Next.skip).getD .bad
    else .token (.symbol c) cs

def lexN : Nat → List UInt8 → Option (List Token)
  | 0, _ => none
  | n + 1, text =>
    match next text with
    | .done => some []
    | .bad => none
    | .skip rest => lexN n rest
    | .token t rest => (lexN n rest).map (t :: ·)

def lex (text : List UInt8) : Option (List Token) := lexN (text.length + 1) text

/-! ## Strings -/

/-- The text behind an opening quote, the value of the string and the text behind it. -/
inductive Body (q : UInt8) : List UInt8 → List UInt8 → List UInt8 → Prop
  | close {rest : List UInt8} : rest.head? ≠ some q → Body q (q :: rest) [] rest
  | doubled {text v rest : List UInt8} : Body q text v rest → Body q (q :: q :: text) (q :: v) rest
  | escaped (c : UInt8) {text v rest : List UInt8} : Body q text v rest → Body q (92 :: c :: text) (escape c ++ v) rest
  | plain {c : UInt8} {text v rest : List UInt8} : c ≠ q → c ≠ 92 → Body q text v rest → Body q (c :: text) (c :: v) rest

section
variable {q : UInt8} {text v rest : List UInt8}

theorem body_of_readBody (h : readBody q text = some (v, rest)) : Body q text v rest := by
  fun_induction readBody q text generalizing v with
  | case1 => cases h
  | case2 =>
    cases h
    exact .close (by simp)
  | case3 c hc => cases h
  | case4 tail ih =>
    obtain ⟨⟨v, rest⟩, hrest, heq⟩ := Option.map_eq_some_iff.1 h
    cases heq
    exact .doubled (ih hrest)
  | case5 d tail hd =>
    cases h
    exact .close (by simpa using hd)
  | case6 d tail hc ih =>
    obtain ⟨⟨v, rest⟩, hrest, heq⟩ := Option.map_eq_some_iff.1 h
    cases heq
    exact .escaped d (ih hrest)
  | case7 c d tail hc hc' ih =>
    obtain ⟨⟨v, rest⟩, hrest, heq⟩ := Option.map_eq_some_iff.1 h
    cases heq
    exact .plain hc hc' (ih hrest)

theorem readBody_of_body (hq : q ≠ 92) (h : Body q text v rest) : readBody q text = some (v, rest) := by
  induction h with
  | @close rest hrest =>
    cases rest with
    | nil => simp [readBody]
    | cons d rest =>
      have hd : d ≠ q := by simpa using hrest
      simp [readBody, hd]
  | doubled _ ih => simp [readBody, ih]
  | escaped c _ ih => simp [readBody, Ne.symm hq, ih]
  | @plain c text v rest hc hc' _ ih =>
    cases text with
    | nil => cases ih
    | cons d text => simp [readBody, hc, hc', ih]

theorem length_escape_le (c : UInt8) : (escape c).length ≤ 2 := by
  unfold escape
  split_ifs <;> simp

theorem Body.length_lt (h : Body q text v rest) : v.length + rest.length < text.length := by
  induction h with
  | close => simp
  | doubled _ ih =>
    simp only [List.length_cons]
    omega
  | escaped c _ ih =>
    have := length_escape_le c
    simp only [List.length_cons, List.length_append]
    omega
  | plain _ _ _ ih =>
    simp only [List.length_cons]
    omega

end

/-! ## Every step gets on -/

variable {text rest : List UInt8}

theorem readIdent_length {v : List UInt8} (h : readIdent text = some (v, rest)) : rest.length < text.length := by
  fun_induction readIdent text generalizing v with
  | case1 cs ih =>
    obtain ⟨⟨v, rest⟩, hrest, heq⟩ := Option.map_eq_some_iff.1 h
    cases heq
    have hlt := ih hrest
    simp only [List.length_cons] at hlt ⊢
    omega
  | case2 cs hcs =>
    cases h
    simp
  | case3 c cs hc hc' ih =>
    obtain ⟨⟨v, rest⟩, hrest, heq⟩ := Option.map_eq_some_iff.1 h
    cases heq
    have hlt := ih hrest
    simp only [List.length_cons] at hlt ⊢
    omega
  | case4 => cases h

theorem skipComment_length (h : skipComment text = some rest) : rest.length < text.length := by
  fun_induction skipComment text with
  | case1 cs =>
    cases h
    simp only [List.length_cons]
    omega
  | case2 c cs hcs ih =>
    have := ih h
    simp only [List.length_cons]
    omega
  | case3 => cases h

/-- The text behind what a step has read. -/
def Next.rest? : Next → Option (List UInt8)
  | .skip rest => some rest
  | .token _ rest => some rest
  | _ => none

theorem Next.length_ofRead {t : List UInt8 → Token} {r : Option (List UInt8 × List UInt8)} {n : Nat}
    (hr : ∀ v rest, r = some (v, rest) → rest.length < n) (h : (ofRead t r).rest? = some rest) : rest.length < n := by
  cases r with
  | none => cases h
  | some r =>
    cases h
    exact hr r.1 r.2 rfl

theorem next_length (h : (next text).rest? = some rest) : rest.length < text.length := by
  cases text with
  | nil => cases h
  | cons c cs =>
    have hdrop : ∀ p : UInt8 → Bool, (cs.dropWhile p).length ≤ cs.length := fun p =>
      (List.dropWhile_sublist p).length_le
    simp only [next] at h
    rw [List.length_cons]
    split_ifs at h
    · cases h
      omega
    · cases h
      exact Nat.lt_succ_of_le (hdrop isWord)
    · refine Next.length_ofRead (fun v rest hread => ?_) h
      have := (body_of_readBody hread).length_lt
      omega
    · exact Next.length_ofRead (fun v rest hread => Nat.lt_succ_of_lt (readIdent_length hread)) h
    · cases h
      exact Nat.lt_succ_of_le (hdrop (· ≠ 10))
    · cases hcomment : skipComment cs.tail with
      | none => simp [hcomment, Next.rest?] at h
      | some rest' =>
        have := skipComment_length hcomment
        obtain rfl : rest' = rest := by simpa [hcomment, Next.rest?] using h
        rw [List.length_tail] at this
        omega
    · cases h
      omega

theorem next_skip (h : next text = .skip rest) : rest.length < text.length :=
  next_length (by rw [h]; rfl)

theorem next_token {t : Token} (h : next text = .token t rest) : rest.length < text.length :=
  next_length (by rw [h]; rfl)

theorem lexN_eq {n m : Nat} (hn : text.length < n) (hm : text.length < m) : lexN n text = lexN m text := by
  induction n generalizing m text with
  | zero => omega
  | succ n ih =>
    cases m with
    | zero => omega
    | succ m =>
      simp only [lexN]
      cases hnext : next text with
      | done => rfl
      | bad => rfl
      | skip rest =>
        have := next_skip hnext
        exact ih (by omega) (by omega)
      | token t rest =>
        have := next_token hnext
        have hrest : lexN n rest = lexN m rest := ih (by omega) (by omega)
        simp only [hrest]

theorem lex_eq (text : List UInt8) : lex text = match next text with
    | .done => some []
    | .bad => none
    | .skip rest => lex rest
    | .token t rest => (lex rest).map (t :: ·) := by
  rw [lex, lexN]
  cases hnext : next text with
  | done => rfl
  | bad => rfl
  | skip rest =>
    have := next_skip hnext
    exact lexN_eq (by omega) (by omega)
  | token t rest =>
    have := next_token hnext
    have hrest : lexN text.length rest = lex rest := lexN_eq (by omega) (by omega)
    simp only [hrest]

/-! ## One token, then the rest -/

section
variable {c : UInt8} {text : List UInt8}

theorem lex_space (hc : isSpace c = true) : lex (c :: text) = lex text := by
  rw [lex_eq]
  simp [next, hc]

theorem isSpace_of_isWord (h : isWord c = true) : isSpace c = false := by
  simp only [isWord, isSpace, decide_eq_true_eq, decide_eq_false_iff_not] at h ⊢
  grind

theorem lex_word {w : List UInt8} (hw : w ≠ []) (hword : ∀ c ∈ w, isWord c = true) (hc : isWord c = false) :
    lex (w ++ c :: text) = (lex (c :: text)).map (.word w :: ·) := by
  obtain ⟨a, w, rfl⟩ := List.exists_cons_of_ne_nil hw
  obtain ⟨ha, hword⟩ := List.forall_mem_cons.1 hword
  have htake : (w ++ c :: text).takeWhile isWord = w := by
    rw [List.takeWhile_append_of_pos hword, List.takeWhile_cons_of_neg (by simp [hc]), List.append_nil]
  have hdrop : (w ++ c :: text).dropWhile isWord = c :: text := by
    rw [List.dropWhile_append_of_pos hword, List.dropWhile_cons_of_neg (by simp [hc])]
  rw [List.cons_append, lex_eq]
  simp [next, isSpace_of_isWord ha, ha, htake, hdrop]

/-- A byte that begins nothing longer. -/
def isSymbol (c : UInt8) : Bool :=
  !isSpace c && !isWord c && c ≠ 39 && c ≠ 34 && c ≠ 96 && c ≠ 35 && c ≠ 45 && c ≠ 47

theorem lex_symbol (hc : isSymbol c = true) : lex (c :: text) = (lex text).map (.symbol c :: ·) := by
  simp only [isSymbol, Bool.and_eq_true, Bool.not_eq_true', decide_eq_true_eq] at hc
  rw [lex_eq]
  simp [next, hc]

theorem lex_quote {v : List UInt8} {ts : List Token} : lex (39 :: text) = some (.str v :: ts) ↔
    ∃ rest, Body 39 text v rest ∧ lex rest = some ts := by
  have hnext : next (39 :: text) = .ofRead .str (readBody 39 text) := rfl
  rw [lex_eq, hnext]
  constructor
  · intro h
    cases hbody : readBody 39 text with
    | none => simp [hbody, Next.ofRead] at h
    | some r =>
      obtain ⟨v', rest⟩ := r
      obtain ⟨ts', hts, heq⟩ : ∃ ts', lex rest = some ts' ∧ .str v' :: ts' = .str v :: ts := by
        simpa [hbody, Next.ofRead] using h
      cases heq
      exact ⟨rest, body_of_readBody hbody, hts⟩
  · rintro ⟨rest, hbody, hts⟩
    simp [readBody_of_body (by decide) hbody, Next.ofRead, hts]

end

/-! ## A text between quotes -/

/-- No quote, and a backslash only in front of `%` or `_`. -/
def Plain : List UInt8 → Bool
  | [] => true
  | [c] => c ≠ 39 && c ≠ 92
  | c :: d :: cs =>
    if c = 39 then false
    else if c = 92 then (d = 37 || d = 95) && Plain cs
    else Plain (d :: cs)

theorem plain_cons {c : UInt8} (hc : c ≠ 39) (hc' : c ≠ 92) (s : List UInt8) : Plain (c :: s) = Plain s := by
  cases s <;> simp [Plain, hc, hc']

/-- A quote or a backslash. -/
def Special (c : UInt8) : Prop := c = 39 ∨ c = 92

theorem escape_of_kept {c : UInt8} (h : c = 37 ∨ c = 95) : escape c = [92, c] := by
  obtain rfl | rfl := h <;> rfl

/-- A backslash pair that stands for a quote or a backslash is made of it. -/
theorem escape_of_not_kept {c : UInt8} (h : ¬ (c = 37 ∨ c = 95)) :
    ∃ e, escape c = [e] ∧ (Special e → e = c) := by
  unfold escape
  split_ifs
  all_goals first
    | exact ⟨_, rfl, fun _ => rfl⟩
    | exact ⟨_, rfl, fun he => absurd he (by unfold Special; decide)⟩

section
variable {text v rest : List UInt8} {x : UInt8} {tail : List UInt8}

theorem body_of_plain {s : List UInt8} (h : Plain s = true) (hrest : rest.head? ≠ some 39) :
    Body 39 (s ++ 39 :: rest) s rest := by
  fun_induction Plain s with
  | case1 => exact .close hrest
  | case2 c =>
    obtain ⟨hc, hc'⟩ : c ≠ 39 ∧ c ≠ 92 := by simpa using h
    exact .plain hc hc' (.close hrest)
  | case3 => cases h
  | case4 d cs hc ih =>
    obtain ⟨hd, hcs⟩ : (d = 37 ∨ d = 95) ∧ Plain cs = true := by simpa using h
    have hbody := Body.escaped d (ih hcs)
    rwa [escape_of_kept hd] at hbody
  | case5 c d cs hc hc' ih => exact .plain hc hc' (ih h)

/-- The value has fallen behind the text, as it does once a pair has stood for one byte. Of the pasted text, `m` is still to
be denoted; `d` has been read already, and is quotes and backslashes only. -/
structure Behind (x : UInt8) (tail d text m : List UInt8) : Prop where
  nonempty : d ≠ []
  special : ∀ c ∈ d, Special c
  text_eq : d ++ text = m ++ 39 :: x :: tail

section
variable {d m : List UInt8} {a p : UInt8}

theorem Behind.head (h : Behind x tail d text (a :: m)) : Special a := by
  obtain ⟨hne, hspecial, htext⟩ := h
  obtain ⟨b, d, rfl⟩ := List.exists_cons_of_ne_nil hne
  obtain ⟨rfl, -⟩ := List.cons.inj htext
  exact hspecial b List.mem_cons_self

/-- A byte is read and the next one denoted. -/
theorem Behind.shift (h : Behind x tail d (p :: text) (a :: m)) (hp : Special p) :
    Behind x tail (d.tail ++ [p]) text m := by
  obtain ⟨hne, hspecial, htext⟩ := h
  obtain ⟨b, d, rfl⟩ := List.exists_cons_of_ne_nil hne
  refine ⟨by simp, ?_, by simpa using (List.cons.inj htext).2⟩
  intro c hc
  obtain hc | hc := List.mem_append.1 hc
  · exact hspecial c (List.mem_cons_of_mem _ hc)
  · rwa [List.mem_singleton.1 hc]

/-- A byte is read and none denoted. -/
theorem Behind.pass (h : Behind x tail d (p :: text) m) (hp : Special p) : Behind x tail (d ++ [p]) text m := by
  refine ⟨by simp, ?_, by simpa using h.text_eq⟩
  intro c hc
  obtain hc | hc := List.mem_append.1 hc
  · exact h.special c hc
  · rwa [List.mem_singleton.1 hc]

/-- When all is denoted, the quote behind the text has been read, and nothing else. -/
theorem Behind.all (h : Behind x tail d text []) (hx : ¬ Special x) : d = [39] ∧ text = x :: tail := by
  obtain ⟨hne, hspecial, htext⟩ := h
  obtain ⟨b, d, rfl⟩ := List.exists_cons_of_ne_nil hne
  obtain ⟨rfl, htext'⟩ := List.cons.inj htext
  cases d with
  | nil => exact ⟨rfl, htext'⟩
  | cons b' d =>
    obtain ⟨rfl, -⟩ := List.cons.inj htext'
    exact absurd (hspecial b' (by simp)) hx

/-- A special byte is not the one behind the quote. -/
theorem Behind.ne_nil (h : Behind x tail d (p :: text) m) (hp : Special p) (hx : ¬ Special x) : m ≠ [] := by
  rintro rfl
  obtain ⟨rfl, -⟩ := List.cons.inj (h.all hx).2
  exact hx hp

/-- A byte that is not special cannot be denoted as long as the value is behind, so that it comes to the byte behind the
quote. -/
theorem Body.of_behind (h : Body 39 text v rest) (hx : ¬ Special x) (hbehind : Behind x tail d text m) (hm : m <+: v) :
    m ++ [x] <+: v := by
  induction h generalizing d m with
  | close =>
    exact absurd (List.prefix_nil.1 hm) (hbehind.ne_nil (.inl rfl) hx)
  | doubled _ ih =>
    obtain ⟨a, m, rfl⟩ := List.exists_cons_of_ne_nil (hbehind.ne_nil (.inl rfl) hx)
    obtain ⟨rfl, hm'⟩ := List.cons_prefix_cons.1 hm
    exact List.cons_prefix_cons.2 ⟨rfl, ih ((hbehind.shift (.inl rfl)).pass (.inl rfl)) hm'⟩
  | escaped c _ ih =>
    obtain ⟨a, m, rfl⟩ := List.exists_cons_of_ne_nil (hbehind.ne_nil (.inr rfl) hx)
    by_cases hc : c = 37 ∨ c = 95
    · rw [escape_of_kept hc] at hm
      obtain ⟨-, hm'⟩ := List.cons_prefix_cons.1 hm
      have hshift := hbehind.shift (.inr rfl)
      cases m with
      | nil =>
        have hlast : d.tail ++ [92] = [] ++ [39] := (hshift.all hx).1
        cases List.append_inj_right' hlast rfl
      | cons a' m =>
        obtain ⟨rfl, -⟩ := List.cons_prefix_cons.1 hm'
        obtain rfl | rfl := hc <;> exact absurd hshift.head (by unfold Special; decide)
    · obtain ⟨e, he, hce⟩ := escape_of_not_kept hc
      rw [he] at hm ⊢
      obtain ⟨rfl, hm'⟩ := List.cons_prefix_cons.1 hm
      obtain rfl := hce hbehind.head
      exact List.cons_prefix_cons.2 ⟨rfl, ih ((hbehind.shift (.inr rfl)).pass hbehind.head) hm'⟩
  | plain hc hc' _ ih =>
    cases m with
    | nil =>
      obtain ⟨rfl, -⟩ := List.cons.inj (hbehind.all hx).2
      exact List.cons_prefix_cons.2 ⟨rfl, List.nil_prefix⟩
    | cons a m =>
      obtain ⟨rfl, -⟩ := List.cons_prefix_cons.1 hm
      obtain ha | ha := hbehind.head
      · exact absurd ha hc
      · exact absurd ha hc'

end

/-- What a literal that begins with the pasted text `s` denotes: `s`, if that is plain; otherwise the value does not begin
with `s`, or it goes on with the byte behind the quote. -/
theorem Body.of_pasted {s : List UInt8} (h : Body 39 (s ++ 39 :: x :: tail) v rest) (hx : ¬ Special x)
    (hbegin : s <+: v) : (Plain s = true ∧ v = s ∧ rest = x :: tail) ∨ s ++ [x] <+: v := by
  generalize htext : s ++ 39 :: x :: tail = text at h
  induction h generalizing s with
  | close hrest =>
    obtain rfl := List.prefix_nil.1 hbegin
    exact .inl ⟨rfl, rfl, (List.cons.inj htext).2.symm⟩
  | doubled h _ =>
    cases s with
    | nil =>
      obtain ⟨rfl, -⟩ := List.cons.inj (List.cons.inj htext).2
      exact absurd (.inl rfl) hx
    | cons a s =>
      obtain ⟨rfl, hbegin'⟩ := List.cons_prefix_cons.1 hbegin
      refine .inr (List.cons_prefix_cons.2 ⟨rfl, ?_⟩)
      exact h.of_behind hx (d := [39]) ⟨by simp, by simp [Special], (List.cons.inj htext).2.symm⟩ hbegin'
  | escaped c h ih =>
    cases s with
    | nil => cases htext
    | cons a s =>
      obtain ⟨rfl, htext'⟩ := List.cons.inj htext
      by_cases hc : c = 37 ∨ c = 95
      · rw [escape_of_kept hc] at hbegin ⊢
        obtain ⟨-, hbegin'⟩ := List.cons_prefix_cons.1 hbegin
        cases s with
        | nil =>
          obtain ⟨rfl, -⟩ := List.cons.inj htext'
          simp at hc
        | cons b s =>
          obtain ⟨rfl, htext''⟩ := List.cons.inj htext'
          obtain ⟨-, hbegin''⟩ := List.cons_prefix_cons.1 hbegin'
          obtain ⟨hplain, rfl, hrest⟩ | hmore := ih hbegin'' htext''
          · exact .inl ⟨by simp [Plain, hc, hplain], rfl, hrest⟩
          · exact .inr (by simpa using hmore)
      · obtain ⟨e, he, hce⟩ := escape_of_not_kept hc
        rw [he] at hbegin ⊢
        obtain ⟨rfl, hbegin'⟩ := List.cons_prefix_cons.1 hbegin
        obtain rfl := hce (.inr rfl)
        refine .inr (List.cons_prefix_cons.2 ⟨rfl, ?_⟩)
        exact h.of_behind hx (d := [92]) ⟨by simp, by simp [Special], htext'.symm⟩ hbegin'
  | plain hc hc' _ ih =>
    cases s with
    | nil => exact absurd (List.cons.inj htext).1.symm hc
    | cons a s =>
      obtain ⟨rfl, htext'⟩ := List.cons.inj htext
      obtain ⟨-, hbegin'⟩ := List.cons_prefix_cons.1 hbegin
      obtain ⟨hplain, rfl, hrest⟩ | hmore := ih hbegin' htext'
      · exact .inl ⟨by rw [plain_cons hc hc', hplain], rfl, hrest⟩
      · exact .inr (List.cons_prefix_cons.2 ⟨rfl, hmore⟩)

end
end SqlLexer
