import ChatReactor.Buffer
import ChatReactor.Lib.SqlLexer
import ChatReactor.MysqlConnection
import Mathlib.Data.List.TakeWhile

/-!
# The statement of a sign-up (`server_threaded.cc:38-40`, `:133-148`, `mysql_connection.cc:194-204`)

| here | there |
| --- | --- |
| `insertFmt` | the format, with its two `%s` |
| `format` | what `vsnprintf` makes of a format with `%s` only |
| `execFormat` | `MysqlConnection::exec_format` |
| `insertTokens` | the one statement that the text should be |

`%s` prints a string up to its first NUL. The text is cut to 4093 bytes, and a text whose length is no `int` makes
`vsnprintf` fail. Nothing escapes the strings, and nobody calls `have_escape_char`. The server takes the text apart as
`SqlLexer` does.

A name or a password that is not plain cannot come out of this as it is: it would have to be equal to a literal that is
read from its own bytes, which falls behind the text for good as soon as an escape makes it shorter
(`sign_up_intact_iff`).
-/

namespace ChatReactor

open SqlLexer

def format : List UInt8 → List (List UInt8) → List UInt8
  | 37 :: 115 :: fmt, s :: args => cString s ++ format fmt args
  | c :: fmt, args => c :: format fmt args
  | [], _ => []

def insertFmt : List UInt8 := bytesOf "INSERT INTO userinfo(user_name, password) VALUES('%s', '%s')"

/-- `buf_data` has 4094 bytes. -/
def MysqlConnection.execFormat (c : MysqlConnection) (fmt : List UInt8) (args : List (List UInt8)) (answer : Answer) :
    Option (Int × MysqlConnection) :=
  let text := format fmt args
  let length : Int := if text.length ≤ 2147483647 then text.length else -1
  if length < 1 then some (-1, c) else c.exec (text.take 4093) answer

/-- An `INSERT` of the two values. -/
def insertTokens (name passwd : List UInt8) : List Token :=
  [.word (bytesOf "INSERT"), .word (bytesOf "INTO"), .word (bytesOf "userinfo"), .symbol 40, .word (bytesOf "user_name"),
    .symbol 44, .word (bytesOf "password"), .symbol 41, .word (bytesOf "VALUES"), .symbol 40, .str name, .symbol 44,
    .str passwd, .symbol 41]

/-! ## The text -/

/-- The text in front of the first literal. -/
def insertHead : List UInt8 :=
  bytesOf "INSERT" ++ 32 :: (bytesOf "INTO" ++ 32 :: (bytesOf "userinfo" ++ 40 :: (bytesOf "user_name" ++ 44 :: 32 ::
    (bytesOf "password" ++ 41 :: 32 :: (bytesOf "VALUES" ++ [40])))))

theorem format_insertFmt (name passwd : List UInt8) : format insertFmt [name, passwd] =
    insertHead ++ 39 :: (cString name ++ 39 :: 44 :: 32 :: 39 :: (cString passwd ++ [39, 41])) := by
  rfl

theorem lex_insertHead (text : List UInt8) : lex (insertHead ++ text) =
    (lex text).map ((insertTokens [] []).take 10 ++ ·) := by
  have hword : ∀ s ∈ ["INSERT", "INTO", "userinfo", "user_name", "password", "VALUES"], ∀ c text, isWord c = false →
      lex (bytesOf s ++ c :: text) = (lex (c :: text)).map (.word (bytesOf s) :: ·) := by
    have hbytes : ∀ s ∈ ["INSERT", "INTO", "userinfo", "user_name", "password", "VALUES"],
        bytesOf s ≠ [] ∧ ∀ c ∈ bytesOf s, isWord c = true := by decide +kernel
    exact fun s hs c text hc => lex_word (hbytes s hs).1 (hbytes s hs).2 hc
  simp only [insertHead, List.append_assoc, List.cons_append, List.nil_append]
  rw [hword "INSERT" (by simp) 32 _ rfl, lex_space (c := 32) rfl, hword "INTO" (by simp) 32 _ rfl,
    lex_space (c := 32) rfl, hword "userinfo" (by simp) 40 _ rfl, lex_symbol (c := 40) rfl,
    hword "user_name" (by simp) 44 _ rfl, lex_symbol (c := 44) rfl, lex_space (c := 32) rfl,
    hword "password" (by simp) 41 _ rfl, lex_symbol (c := 41) rfl, lex_space (c := 32) rfl,
    hword "VALUES" (by simp) 40 _ rfl, lex_symbol (c := 40) rfl]
  simp only [Option.map_map]
  rfl

/-! ## Its literals -/

section
variable {s : List UInt8} {x : UInt8} {tail rest : List UInt8}

/-- A string that can be pasted between quotes. -/
def Pasteable (s : List UInt8) : Prop := 0 ∉ s ∧ Plain s = true

instance (s : List UInt8) : Decidable (Pasteable s) := inferInstanceAs (Decidable (_ ∧ _))

/-- The only literal that is read from a pasted string and denotes it is the string itself. -/
theorem Pasteable.of_body (h : Body 39 (cString s ++ 39 :: x :: tail) s rest) (hx : ¬ Special x) (hzero : x ≠ 0) :
    Pasteable s ∧ rest = x :: tail := by
  obtain ⟨hplain, hs, hrest⟩ | hmore := h.of_pasted hx (cString_isPrefix s)
  · refine ⟨⟨fun hmem => ?_, hs ▸ hplain⟩, hrest⟩
    rw [hs] at hmem
    simpa using List.mem_takeWhile_imp hmem
  · -- behind its bytes in front of a NUL there is the NUL
    obtain ⟨more, hs⟩ := hmore
    have hdrop : s.dropWhile (· ≠ 0) = x :: more := by
      have hsplit : cString s ++ s.dropWhile (· ≠ 0) = s := List.takeWhile_append_dropWhile
      have happend := hsplit.trans hs.symm
      rwa [List.append_assoc, List.append_cancel_left_eq] at happend
    have hnot := List.head?_dropWhile_not (· ≠ 0) s
    rw [hdrop] at hnot
    simp [hzero] at hnot

variable {passwd : List UInt8}

/-- The text behind the first literal, cut after `k` bytes. -/
theorem lex_second_iff (k : Nat) :
    lex ((44 :: 32 :: 39 :: (cString passwd ++ [39, 41])).take k) = some [.symbol 44, .str passwd, .symbol 41] ↔
      Pasteable passwd ∧ passwd.length + 5 ≤ k := by
  have hlen := length_cString_le passwd
  constructor
  · intro h
    obtain _ | _ | _ | k := k
    · cases h
    · cases h
    · cases h
    · rw [List.take_succ_cons, List.take_succ_cons, List.take_succ_cons, lex_symbol rfl, lex_space rfl,
        Option.map_eq_some_iff] at h
      obtain ⟨ts, hts, heq⟩ := h
      cases heq
      obtain ⟨rest, hbody, hrest⟩ := lex_quote.1 hts
      have hne : rest ≠ [] := by
        rintro rfl
        cases hrest
      have hpos := List.length_pos_iff.2 hne
      have hlt := hbody.length_lt
      simp only [List.length_take, List.length_append, List.length_cons, List.length_nil] at hlt
      rw [List.take_of_length_le (by simp; omega)] at hbody
      have hpaste := (Pasteable.of_body hbody (by unfold Special; decide) (by decide)).1
      exact ⟨hpaste, by omega⟩
  · rintro ⟨⟨hzero, hplain⟩, hk⟩
    rw [cString_of_not_mem hzero, List.take_of_length_le (by simp; omega), lex_symbol rfl, lex_space rfl,
      lex_quote.2 ⟨[41], body_of_plain hplain (by decide), rfl⟩]
    rfl

/-- The whole text, cut after `k` bytes of what follows the first quote. -/
theorem lex_values_iff (name passwd : List UInt8) (k : Nat) :
    lex (insertHead ++ 39 :: (cString name ++ 39 :: 44 :: 32 :: 39 :: (cString passwd ++ [39, 41])).take k) =
        some (insertTokens name passwd) ↔
      Pasteable name ∧ Pasteable passwd ∧ name.length + passwd.length + 6 ≤ k := by
  have hlen := length_cString_le name
  have htokens : insertTokens name passwd =
      (insertTokens [] []).take 10 ++ [.str name, .symbol 44, .str passwd, .symbol 41] := rfl
  rw [lex_insertHead, htokens, Option.map_eq_some_iff]
  simp only [List.append_cancel_left_eq, exists_eq_right, lex_quote]
  constructor
  · rintro ⟨rest, hbody, hrest⟩
    have hne : rest ≠ [] := by
      rintro rfl
      cases hrest
    have hpos := List.length_pos_iff.2 hne
    have hlt := hbody.length_lt
    simp only [List.length_take] at hlt
    rw [List.take_append, List.take_of_length_le (by omega)] at hbody
    obtain ⟨k', rfl⟩ : ∃ k', k = (cString name).length + (k' + 2) := ⟨k - (cString name).length - 2, by omega⟩
    rw [Nat.add_sub_cancel_left, List.take_succ_cons, List.take_succ_cons] at hbody
    obtain ⟨hname, rfl⟩ := Pasteable.of_body hbody (by unfold Special; decide) (by decide)
    rw [← List.take_succ_cons] at hrest
    obtain ⟨hpasswd, hk⟩ := (lex_second_iff _).1 hrest
    rw [cString_of_not_mem hname.1]
    exact ⟨hname, hpasswd, by omega⟩
  · rintro ⟨hname, hpasswd, hk⟩
    rw [cString_of_not_mem hname.1, cString_of_not_mem hpasswd.1, List.take_of_length_le (by simp; omega)]
    refine ⟨_, body_of_plain hname.2 (by simp), ?_⟩
    have hsecond := (lex_second_iff (passwd.length + 5)).2 ⟨hpasswd, le_rfl⟩
    rwa [cString_of_not_mem hpasswd.1, List.take_of_length_le (by simp)] at hsecond

end

/-! ## The statement that is executed -/

namespace MysqlConnection

/-- A sign-up is what it should be: one `INSERT` of the name and the password is handed to the server, or the result is -1
and nothing is. -/
def SignUpIntact (c : MysqlConnection) (name passwd : List UInt8) (answer : Answer) : Prop :=
  ∃ r c', c.execFormat insertFmt [name, passwd] answer = some (r, c') ∧
    ((∃ text calls, c'.calls = c.calls ++ .query text :: calls ∧ lex text = some (insertTokens name passwd)) ∨
      (r = -1 ∧ c'.calls = c.calls))

theorem length_insert (name passwd : List UInt8) :
    (format insertFmt [name, passwd]).length = (cString name).length + (cString passwd).length + 56 := by
  have hhead : insertHead.length = 49 := by decide +kernel
  rw [format_insertFmt]
  simp only [List.length_append, List.length_cons, List.length_nil, hhead]
  omega

theorem take_insert (name passwd : List UInt8) : (format insertFmt [name, passwd]).take 4093 =
    insertHead ++ 39 :: (cString name ++ 39 :: 44 :: 32 :: 39 :: (cString passwd ++ [39, 41])).take 4043 := by
  have hhead : insertHead.length = 49 := by decide +kernel
  rw [format_insertFmt, List.take_append, List.take_of_length_le (by omega), hhead]
  rfl

/-- **A sign-up statement.** For an object in any state of its life: the statement is what it should be exactly if there is no
connection, if the text is longer than an `int` can say, or if it fits into the buffer and both strings can be pasted. -/
theorem sign_up_intact_iff {ops : List Op} {c : MysqlConnection} (hc : run ops = some c) (name passwd : List UInt8)
    (answer : Answer) : c.SignUpIntact name passwd answer ↔
      c.connected = false ∨ 2147483647 < (format insertFmt [name, passwd]).length ∨
        (Pasteable name ∧ Pasteable passwd ∧ name.length + passwd.length + 56 ≤ 4093) := by
  have hlength := length_insert name passwd
  unfold SignUpIntact execFormat
  by_cases hlong : 2147483647 < (format insertFmt [name, passwd]).length
  · simp [hlong, Nat.not_le.2 hlong]
  · have hshort : ¬ ((format insertFmt [name, passwd]).length : Int) < 1 := by omega
    simp only [if_pos (Nat.le_of_not_lt hlong), if_neg hshort, hlong, false_or]
    cases hconn : c.mConnected with
    | false => simp [exec, connected, hconn]
    | true =>
      obtain ⟨r, c', calls, hexec, hcalls⟩ := exec_query (run_inv hc).1 hconn
        ((format insertFmt [name, passwd]).take 4093) answer
      have hlex := lex_values_iff name passwd 4043
      rw [← take_insert] at hlex
      have hlen : name.length + passwd.length + 6 ≤ 4043 ↔ name.length + passwd.length + 56 ≤ 4093 := by omega
      rw [hlen] at hlex
      rw [← hlex, connected, hconn, hexec]
      constructor
      · rintro ⟨_, _, heq, ⟨text, calls', hcalls', htext⟩ | ⟨-, hnone⟩⟩
        · cases heq
          rw [hcalls] at hcalls'
          obtain ⟨rfl, -⟩ : _ = text ∧ calls = calls' := by simpa using hcalls'
          exact .inr htext
        · cases heq
          simp [hcalls] at hnone
      · rintro (hfalse | htext)
        · cases hfalse
        · exact ⟨r, c', rfl, .inl ⟨_, calls, hcalls, htext⟩⟩

/-- A new user whose name and password can be pasted. -/
theorem sign_up_intact_bob : ∃ c, run [.init true] = some c ∧
    c.SignUpIntact (bytesOf "bob") (bytesOf "100\\%") ⟨true, false, 0⟩ := by
  have hc : run [.init true] = some (new.init true).2 := rfl
  exact ⟨_, hc, (sign_up_intact_iff hc _ _ _).2 (.inr (.inr (by decide)))⟩

/-- A name that ends the literal: the server executes the `INSERT` of another name with another password, and the result
is 0. -/
theorem sign_up_injected :
    let name := bytesOf "x', 'y')#"
    ∃ c r c' text, run [.init true] = some c ∧
      c.execFormat insertFmt [name, bytesOf "pw"] ⟨true, false, 0⟩ = some (r, c') ∧ r = 0 ∧
      c'.calls = c.calls ++ [.query text] ∧ lex text = some (insertTokens (bytesOf "x") (bytesOf "y")) ∧
      insertTokens (bytesOf "x") (bytesOf "y") ≠ insertTokens name (bytesOf "pw") := by
  refine ⟨_, _, _, _, rfl, rfl, rfl, rfl, ?_, ?_⟩
  · decide +kernel
  · decide

end MysqlConnection
end ChatReactor
